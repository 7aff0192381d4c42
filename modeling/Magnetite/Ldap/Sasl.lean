import Magnetite.Krb5.ApReqs
import Magnetite.Krb5.GssIntegrity
import Magnetite.Lib.System
import Magnetite.Smb.Spnego

/-!
# SASL binds

The legs of a GSS-SPNEGO, GSSAPI or NTLM bind, and what a bind does to a connection. The first
Kerberos leg carries an AP-REQ; it is checked and answered with a fresh subkey. After two more legs
the bind is complete, and the last token only says which protection follows: one that cannot be
read asks for none. The state is kept for the whole connection.
-/
namespace Magnetite.Ldap

open Magnetite.Lib Magnetite.Krb5

section Tokens

/-- `der_total_len`, with the arithmetic of 64 bits. -/
def derTotalLen (data : List UInt8) : Option Nat := do
  let first := (← data[1]?).toNat
  if first < 0x80 then return 2 + first
  else
    let n := first - 0x80
    if data.length < 2 + n then none
    else
      let len := ((data.drop 2).take n).foldl (fun len b => (len * 256 + b.toNat) % 2 ^ 64) 0
      return (2 + n + len) % 2 ^ 64

/-- The AP-REQ behind the first marker; without a marker, the first AP-REQ with a long length. -/
def extractApReq (blob : List UInt8) : Option (List UInt8) :=
  let marked := blob.tails.find? fun rest => rest.take 3 == [0x01, 0x00, 0x6e] && 3 < rest.length
  match marked with
  | some rest => do
    let apReq := rest.drop 2
    let len ← derTotalLen apReq
    if len ≤ apReq.length then some (apReq.take len) else none
  | none =>
    blob.tails.findSome? fun rest =>
      if rest[0]? = some 0x6e ∧ 2 < rest.length ∧
          (rest[1]?.any fun b => decide (0x81 ≤ b.toNat ∧ b.toNat ≤ 0x84)) = true then do
        let len ← derTotalLen rest
        if len ≤ rest.length then some (rest.take len) else none
      else none

/-- Whether the SPNEGO mechanism stands in a token. -/
def isSpnegoFramed (cred : List UInt8) : Bool := cred.tails.any Smb.spnegoOid.isPrefixOf

def rawGssApRep (apRep : List UInt8) : List UInt8 := Smb.apRepTokId ++ apRep

end Tokens

section Layers

def layerNone : UInt8 := 0x01
def layerIntegrity : UInt8 := 0x02
def layerConfidentiality : UInt8 := 0x04

def offeredLayers : UInt8 := layerNone ||| layerIntegrity ||| layerConfidentiality

def maxWrapSize : Nat := 0x100000

def layerMessage (layers : UInt8) (maxSize : Nat) : List UInt8 := layers :: Ndr.beBytes 3 maxSize

def selectedLayer (message : List UInt8) : Option UInt8 := message.head?

/-- The protection of the messages that follow a bind. -/
inductive NegotiatedSecurity (κ : Type) where
  | gss (subkey : κ) (confidential : Bool)
  | ntlm (key : κ)
deriving DecidableEq

end Layers

section Legs

variable {κ : Type}

structure SaslState (κ : Type) where
  client : Option String
  subkey : Option κ
  spnego : Bool
  ntlm : Bool
  step : Nat

def SaslState.fresh : SaslState κ := ⟨none, none, false, false, 0⟩

inductive SaslFailure where
  | noApReq
  | apReq (e : KdcError)
  | apRep
  | noContext
  | offer
  | ntlmMissing
  | ntlmNotConfigured
  | ntlmProof (user : Option String)

inductive SaslOutcome (κ : Type) where
  | continue (serverCreds : List UInt8)
  | done (identity : String) (security : Option (NegotiatedSecurity κ))
  | fail (reason : SaslFailure)

/-- What the legs use: the key of the service, decoding and checksums, and NTLM. -/
structure SaslEnv (κ : Type) where
  serviceKey : κ
  der : ApReqDecoder κ
  checksum : Gss.Checksum κ
  ntlmChallenge : List UInt8
  ntlmUsername : List UInt8 → Option String
  ntHashLookup : Option (String → Option (List UInt8))
  /-- The key of an NTLM response that proves the password. -/
  establish : (ntHash authenticate : List UInt8) → Option κ

/-- One bind request: its token, when it is handled, and the AP-REP with a fresh subkey that would
be made. -/
structure SaslLeg (κ : Type) where
  cred : List UInt8
  now : Nat
  buildApRep : VerifiedApReq κ → Option (List UInt8 × κ)

variable [DecidableEq κ] (env : SaslEnv κ)

def ntlmAuthenticate (cred : List UInt8) : SaslOutcome κ :=
  match Smb.extractNtlmssp cred, env.ntHashLookup with
  | none, _ => .fail .ntlmMissing
  | some _, none => .fail .ntlmNotConfigured
  | some ntlm, some lookup =>
    let user := env.ntlmUsername ntlm
    match user, (user.bind lookup).bind fun hash => env.establish hash ntlm with
    | some u, some key => .done u (some (.ntlm key))
    | u, _ => .fail (.ntlmProof u)

/-- `name@REALM` -/
def clientText (v : VerifiedApReq κ) : String := "/".intercalate v.clientName ++ "@" ++ v.clientRealm

/-- The leg with the AP-REQ. -/
def acceptLeg (st : SaslState κ) (leg : SaslLeg κ) : SaslState κ × SaslOutcome κ :=
  let st := { st with spnego := isSpnegoFramed leg.cred }
  match extractApReq leg.cred with
  | none => (st, .fail .noApReq)
  | some apReq =>
    match verifyApReqBytes env.der env.serviceKey ⟨leg.now, apReq⟩ with
    | .error e => (st, .fail (.apReq e))
    | .ok v =>
      match leg.buildApRep v with
      | none => (st, .fail .apRep)
      | some (apRep, subkey) =>
        ({ st with client := some (clientText v), subkey := some subkey, step := 2 },
          .continue (if st.spnego then Smb.negTokenRespApRep apRep else rawGssApRep apRep))

/-- The leg that is answered with the layers on offer. -/
def offerLeg (st : SaslState κ) : SaslState κ × SaslOutcome κ :=
  match st.subkey with
  | none => (st, .fail .noContext)
  | some subkey =>
    match Gss.gssWrapIntegrity env.checksum subkey .acceptor 0
        (layerMessage offeredLayers maxWrapSize) with
    | none => (st, .fail .offer)
    | some token => ({ st with step := 3 }, .continue token)

/-- Sealing goes before signing. -/
def layerFor (subkey : κ) (bits : UInt8) : Option (NegotiatedSecurity κ) :=
  if bits &&& layerConfidentiality ≠ 0 then some (.gss subkey true)
  else if bits &&& layerIntegrity ≠ 0 then some (.gss subkey false)
  else none

/-- The layer that a token selects. A token that does not verify selects nothing. -/
def selection (subkey : κ) (cred : List UInt8) : Option (NegotiatedSecurity κ) := do
  let (_, message) ← Gss.gssUnwrapIntegrity env.checksum subkey .initiator cred
  let bits ← selectedLayer message
  layerFor subkey bits

def gssSpnegoStep (st : SaslState κ) (leg : SaslLeg κ) : SaslState κ × SaslOutcome κ :=
  if st.ntlm then (st, ntlmAuthenticate env leg.cred)
  else if st.step = 0 ∧ leg.cred = [] then ({ st with step := 1 }, .continue [])
  else if st.step ≤ 1 then
    if Smb.ntlmsspMessageType leg.cred = some 1 then
      ({ st with ntlm := true }, .continue env.ntlmChallenge)
    else acceptLeg env st leg
  else if st.step = 2 then offerLeg env st
  else (st, .done (st.client.getD "") (st.subkey.bind fun subkey => selection env subkey leg.cred))

end Legs

/-! ## Connections -/

section Connections

variable {κ : Type}

structure Connection (κ : Type) where
  boundDn : Option String
  sasl : SaslState κ
  layer : Option (NegotiatedSecurity κ)

def Connection.fresh : Connection κ := ⟨none, .fresh, none⟩

/-- A bind request. For a simple bind, whether the password is right; for a SASL bind, the DN that
the account would resolve to. -/
inductive Bind (κ : Type) where
  | anonymous
  | simple (dn : String) (ok : Bool)
  | sasl (mech : String) (leg : SaslLeg κ) (resolved : String → Option String)

inductive BindResult (κ : Type) where
  | success (security : Option (NegotiatedSecurity κ))
  | inProgress (serverCreds : List UInt8)
  | invalidCredentials
  | authMethodNotSupported

variable [DecidableEq κ] (env : Option (SaslEnv κ))

/-- The account of a principal: what stands before the first `@`. -/
def accountOf (principal : String) : String := Text.beforeFirst '@' principal

/-- What a leg of a SASL bind does to the connection. A layer that is on stays on unless another one
is negotiated. -/
def Connection.afterLeg (conn : Connection κ) (resolved : String → Option String) :
    SaslState κ × SaslOutcome κ → Connection κ × BindResult κ
  | (st, .continue serverCreds) => ({ conn with sasl := st }, .inProgress serverCreds)
  | (st, .done principal security) =>
    ({ boundDn := some ((resolved (accountOf principal)).getD principal), sasl := st
       layer := security.or conn.layer }, .success security)
  | (st, .fail _) => ({ conn with sasl := st, boundDn := none }, .invalidCredentials)

def Connection.bind (conn : Connection κ) : Bind κ → Connection κ × BindResult κ
  | .anonymous => ({ conn with boundDn := none }, .success none)
  | .simple dn ok =>
    if ok then ({ conn with boundDn := some dn }, .success none)
    else ({ conn with boundDn := none }, .invalidCredentials)
  | .sasl mech leg resolved =>
    match env with
    | none => (conn, .authMethodNotSupported)
    | some env =>
      if mech ≠ "GSS-SPNEGO" ∧ mech ≠ "GSSAPI" then (conn, .authMethodNotSupported)
      else conn.afterLeg resolved (gssSpnegoStep env conn.sasl leg)

end Connections

/-! ## What a Kerberos bind proves -/

section Soundness

variable {κ : Type} [DecidableEq κ] {env : SaslEnv κ} {binds : List (Bind κ)} {conn : Connection κ}

/-- One bind request after the other. -/
def bindStep (env : SaslEnv κ) (conn : Connection κ) (b : Bind κ) (conn' : Connection κ) : Prop :=
  (conn.bind (some env) b).1 = conn'

/-- Among the bind requests was an AP-REQ of a principal: its ticket is sealed under the key of the
service, its authenticator under the session key of the ticket, it was fresh when it came, and it
was answered with the subkey. -/
def Vouched (env : SaslEnv κ) (binds : List (Bind κ)) (principal : String) (subkey : κ) : Prop :=
  ∃ mech leg resolved apReq, Bind.sasl mech leg resolved ∈ binds ∧
    extractApReq leg.cred = some apReq ∧
    ∃ part auth, Authentic env.der env.serviceKey ⟨leg.now, apReq⟩ part auth ∧
      principal = "/".intercalate part.cname.nameString ++ "@" ++ part.crealm ∧
      ∃ v apRep, v.sessionKey = part.key ∧ leg.buildApRep v = some (apRep, subkey)

omit [DecidableEq κ] in
theorem Vouched.mono {binds' : List (Bind κ)} {principal : String} {subkey : κ}
    (h : Vouched env binds principal subkey) (hsub : binds ⊆ binds') :
    Vouched env binds' principal subkey := by
  obtain ⟨mech, leg, resolved, apReq, hmem, hrest⟩ := h
  exact ⟨mech, leg, resolved, apReq, hsub hmem, hrest⟩

/-- What is known of an AP-REQ that verifies. -/
theorem authentic_of_verified {a : Arrival} {v : VerifiedApReq κ}
    (h : verifyApReqBytes env.der env.serviceKey a = .ok v) :
    ∃ part auth, Authentic env.der env.serviceKey a part auth ∧
      clientText v = "/".intercalate part.cname.nameString ++ "@" ++ part.crealm ∧
      v.sessionKey = part.key := by
  simp only [verifyApReqBytes, verifyApReq, bind_eq_ok, okOr_eq_ok, ensure_eq_ok, pure_eq_ok,
    Sealed.decrypt_eq_some] at h
  obtain ⟨apReq, hreq, plain, hticket, part, hpart, plain', hauth, auth, hopen, _, hname, _, hfresh,
    rfl⟩ := h
  obtain rfl : plain = .encTicket part := by cases plain <;> simp_all [Plain.encTicket?]
  obtain rfl : plain' = .authenticator auth := by cases plain' <;> simp_all [Plain.authenticator?]
  exact ⟨part, auth, ⟨⟨apReq, hreq, hticket, hauth⟩, by simpa using hname, hfresh⟩, rfl, rfl⟩

/-- From the second leg on, the state holds what an AP-REQ vouched for. -/
def SaslState.Vouches (env : SaslEnv κ) (binds : List (Bind κ)) (st : SaslState κ) : Prop :=
  2 ≤ st.step → ∃ principal subkey, st.client = some principal ∧ st.subkey = some subkey ∧
    Vouched env binds principal subkey

omit [DecidableEq κ] in
theorem SaslState.Vouches.mono {binds' : List (Bind κ)} {st : SaslState κ}
    (h : st.Vouches env binds) (hsub : binds ⊆ binds') : st.Vouches env binds' := by
  intro hstep
  obtain ⟨principal, subkey, hclient, hsubkey, hvouched⟩ := h hstep
  exact ⟨principal, subkey, hclient, hsubkey, hvouched.mono hsub⟩

theorem vouches_acceptLeg {st : SaslState κ} (h : st.Vouches env binds) {mech : String}
    {leg : SaslLeg κ} {resolved : String → Option String}
    (hmem : Bind.sasl mech leg resolved ∈ binds) :
    (acceptLeg env st leg).1.Vouches env binds := by
  unfold acceptLeg
  dsimp only
  cases hextract : extractApReq leg.cred with
  | none => exact h
  | some apReq =>
    dsimp only
    cases hverify : verifyApReqBytes env.der env.serviceKey ⟨leg.now, apReq⟩ with
    | error e => exact h
    | ok v =>
      dsimp only
      cases hrep : leg.buildApRep v with
      | none => exact h
      | some rep =>
        obtain ⟨part, auth, hauth, hclient, hkey⟩ := authentic_of_verified hverify
        exact fun _ => ⟨_, rep.2, rfl, rfl, mech, leg, resolved, apReq, hmem, hextract, part, auth,
          hauth, hclient, v, rep.1, hkey, hrep⟩

theorem vouches_gssSpnegoStep {st : SaslState κ} (h : st.Vouches env binds) {mech : String}
    {leg : SaslLeg κ} {resolved : String → Option String}
    (hmem : Bind.sasl mech leg resolved ∈ binds) :
    (gssSpnegoStep env st leg).1.Vouches env binds := by
  unfold gssSpnegoStep
  split_ifs with hntlm hempty hfirst htype hsecond
  · exact h
  · exact fun hstep => absurd hstep (by simp)
  · exact h
  · exact vouches_acceptLeg h hmem
  · unfold offerLeg
    cases hsub : st.subkey with
    | none => exact h
    | some subkey =>
      dsimp only
      cases Gss.gssWrapIntegrity env.checksum subkey .acceptor 0
          (layerMessage offeredLayers maxWrapSize) with
      | none => exact h
      | some token =>
        intro _
        obtain ⟨principal, subkey', hclient, hsubkey, hvouched⟩ := h (by omega)
        exact ⟨principal, subkey', hclient, hsub ▸ hsubkey, hvouched⟩
  · exact h

omit [DecidableEq κ] in
theorem sasl_afterLeg (conn : Connection κ) (resolved : String → Option String)
    (r : SaslState κ × SaslOutcome κ) : (conn.afterLeg resolved r).1.sasl = r.1 := by
  obtain ⟨st, outcome⟩ := r
  cases outcome <;> rfl

theorem vouches_step {b : Bind κ} {conn' : Connection κ} (h : conn.sasl.Vouches env binds)
    (hstep : bindStep env conn b conn') : conn'.sasl.Vouches env (binds ++ [b]) := by
  have hmono : conn.sasl.Vouches env (binds ++ [b]) := h.mono (List.subset_append_left _ _)
  subst hstep
  cases b with
  | anonymous => exact hmono
  | simple dn ok => cases ok <;> exact hmono
  | sasl mech leg resolved =>
    unfold Connection.bind
    dsimp only
    split_ifs
    · exact hmono
    · have hmem : Bind.sasl mech leg resolved ∈ binds ++ [.sasl mech leg resolved] := by simp
      rw [sasl_afterLeg]
      exact vouches_gssSpnegoStep hmono hmem

theorem vouches_run (run : Run (bindStep env) .fresh binds conn) : conn.sasl.Vouches env binds := by
  suffices h : ∀ {c : Connection κ} {before : List (Bind κ)}, c.sasl.Vouches env before →
      Run (bindStep env) c binds conn → conn.sasl.Vouches env (before ++ binds) from
    @h .fresh [] (fun hstep => absurd hstep (by simp [Connection.fresh, SaslState.fresh])) run
  clear run
  intro c before h run
  induction run generalizing before with
  | nil => simpa using h
  | @cons s t u b bs hs _ ih => simpa using ih (vouches_step h hs)

omit [DecidableEq κ] in
/-- A layer is selected only by a token that a holder of the subkey has signed. -/
theorem signed_of_selection {log : List (Gss.Signed κ)} (ideal : env.checksum.Ideal log) {subkey : κ}
    {cred : List UInt8} {security : NegotiatedSecurity κ}
    (h : selection env subkey cred = some security) :
    ∃ w ∈ log, w.key = subkey ∧ w.usage = .initiator ∧
      (selectedLayer w.data).bind (layerFor subkey) = some security := by
  simp only [selection, Option.bind_eq_bind, Option.bind_eq_some_iff, Prod.exists] at h
  obtain ⟨sequence, message, hunwrap, bits, hbits, hlayer⟩ := h
  exact ⟨_, ideal.signed_of_unwrap hunwrap, rfl, rfl, by simp [hbits, hlayer]⟩

/-- Only the last leg completes a Kerberos bind. -/
theorem step_of_done {st : SaslState κ} (hkerberos : st.ntlm = false) {leg : SaslLeg κ}
    {principal : String} {security : Option (NegotiatedSecurity κ)}
    (h : (gssSpnegoStep env st leg).2 = .done principal security) : 3 ≤ st.step := by
  by_contra hlt
  have haccept : ∀ p s, (acceptLeg env st leg).2 ≠ .done p s := by
    intro p s
    unfold acceptLeg
    dsimp only
    split
    · simp
    · split
      · simp
      · split <;> simp
  have hoffer : ∀ p s, (offerLeg env st).2 ≠ .done p s := by
    intro p s
    unfold offerLeg
    split
    · simp
    · split <;> simp
  unfold gssSpnegoStep at h
  rw [if_neg (by simp [hkerberos])] at h
  split_ifs at h with hempty hfirst htype hsecond
  · exact haccept _ _ h
  · exact hoffer _ _ h
  · omega

theorem gssSpnegoStep_last {st : SaslState κ} (hkerberos : st.ntlm = false) (hstep : 3 ≤ st.step)
    (leg : SaslLeg κ) : gssSpnegoStep env st leg = (st, .done (st.client.getD "")
      (st.subkey.bind fun subkey => selection env subkey leg.cred)) := by
  rw [gssSpnegoStep, if_neg (by simp [hkerberos]), if_neg (by omega), if_neg (by omega),
    if_neg (by omega)]

/-- What a bind that completes does. -/
theorem done_of_bind {mech : String} {leg : SaslLeg κ} {resolved : String → Option String}
    {conn' : Connection κ} {security : Option (NegotiatedSecurity κ)}
    (h : conn.bind (some env) (.sasl mech leg resolved) = (conn', .success security)) :
    ∃ principal, (gssSpnegoStep env conn.sasl leg).2 = .done principal security ∧
      conn'.boundDn = some ((resolved (accountOf principal)).getD principal) ∧
      conn'.layer = security.or conn.layer := by
  unfold Connection.bind at h
  dsimp only at h
  split_ifs at h
  · simp at h
  · rcases hleg : gssSpnegoStep env conn.sasl leg with ⟨st, outcome⟩
    rw [hleg] at h
    cases outcome with
    | «continue» creds => simp [Connection.afterLeg] at h
    | fail reason => simp [Connection.afterLeg] at h
    | done principal security' =>
      simp only [Connection.afterLeg, Prod.mk.injEq, BindResult.success.injEq] at h
      obtain ⟨rfl, rfl⟩ := h
      exact ⟨principal, rfl, rfl, rfl⟩

end Soundness

section Sample

/-- A service whose checksums nobody has ever made. -/
def silentEnv : SaslEnv Nat where
  serviceKey := 3
  der := staleDecoder
  checksum :=
    { derives := fun _ => true, mac := fun _ _ _ => List.replicate Gss.cksumLen 0
      verifies := fun _ _ _ _ => false, length_mac := fun _ _ _ => List.length_replicate }
  ntlmChallenge := []
  ntlmUsername := fun _ => none
  ntHashLookup := none
  establish := fun _ _ => none

theorem silentEnv_ideal : silentEnv.checksum.Ideal [] := ⟨by simp [silentEnv]⟩

def sampleLeg (cred : List UInt8) : Bind Nat :=
  .sasl "GSSAPI" ⟨cred, 1000 * nanos, fun _ => some ([], 9)⟩ fun _ => none

/-- A recorded AP-REQ, and a token that says nothing. -/
def replayedBinds : List (Bind Nat) := [sampleLeg [0x01, 0x00, 0x6e, 0x00, 0x00], sampleLeg []]

def replayedConnection : Connection Nat :=
  replayedBinds.foldl (fun conn b => (conn.bind (some silentEnv) b).1) .fresh

theorem replayed_run : Run (bindStep silentEnv) .fresh replayedBinds replayedConnection :=
  .cons rfl (.cons rfl (.nil _))

end Sample

end Magnetite.Ldap
