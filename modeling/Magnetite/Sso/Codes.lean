import Magnetite.Sso.Issuer

/-!
# Where tokens come from

Every pair of tokens goes back to one authorization code, the code to a request of a user with a
valid session for a registered client, and a code yields tokens once.
-/
namespace Magnetite.Sso
open Lib

/-! ## What the checks of the endpoints establish -/

/-- The redirect URI is one of the enabled client's. -/
def Registered (db : Tables) (clientId redirectUri : String) : Prop :=
  ∃ client, getOidcClientAuth db clientId = some client ∧ client.enabled ∧
    redirectUri ∈ client.redirectUris

theorem authorize_proceed {db : Tables} {p : AuthorizeParams}
    {clientId redirectUri scope challenge : String}
    (h : authorize db p = .proceed clientId redirectUri scope challenge) :
    Registered db clientId redirectUri ∧ p.clientId = some clientId ∧
      p.redirectUri = some redirectUri ∧ p.codeChallenge = some challenge := by
  unfold authorize at h
  split at h
  next c u hc hu =>
    split at h
    · cases h
    next client hclient =>
      split_ifs at h with henabled huri htype hscope
      split at h
      next ch method hch hm =>
        split_ifs at h with hmethod
        simp only [AuthorizeReply.proceed.injEq] at h
        obtain ⟨rfl, rfl, -, rfl⟩ := h
        refine ⟨⟨client, hclient, ?_, ?_⟩, hc, hu, hch⟩
        · simpa using henabled
        · simpa using huri
      · cases h
  · cases h

/-- The client is enabled and shows its secret, unless it is registered as public or has none. -/
def Authenticates (db : Tables) (clientId : String) (presented : Option String) : Prop :=
  ∃ client, getOidcClientAuth db clientId = some client ∧ client.enabled ∧
    (client.clientType = "public" ∨ client.clientSecret = "" ∨
      presented = some client.clientSecret)

theorem token_authenticated {db : Tables} {basicAuth : Option (String × String)} {p : TokenParams}
    {clientId code : String} (h : token db basicAuth p = .authenticated clientId code) :
    Authenticates db clientId (clientCredentials basicAuth p).2 ∧
      (clientCredentials basicAuth p).1 = some clientId ∧ p.code = some code := by
  unfold token at h
  split_ifs at h with hgrant
  split at h
  · cases h
  next c hcode =>
    dsimp only at h
    split at h
    · cases h
    next id hid =>
      split at h
      · cases h
      next client hclient =>
        split_ifs at h with henabled hsecret
        simp only [TokenReply.authenticated.injEq] at h
        obtain ⟨rfl, rfl⟩ := h
        refine ⟨⟨client, hclient, by simpa using henabled, ?_⟩, hid, hcode⟩
        by_cases hpub : client.clientType = "public"
        · exact .inl hpub
        · by_cases hempty : client.clientSecret = ""
          · exact .inr (.inl hempty)
          · exact .inr (.inr (by simpa [hpub, hempty] using hsecret))

theorem checkGrant_ok {cfg : Config} {clientId : String} {r : TokenRequest}
    {taken : Option AuthCode} {auth : AuthCode} (h : checkGrant cfg clientId r taken = .ok auth) :
    taken = some auth ∧ auth.clientId = clientId ∧ r.redirectUri = some auth.redirectUri ∧
      ∃ verifier, r.codeVerifier = some verifier ∧ cfg.pkceS256 verifier = auth.codeChallenge := by
  unfold checkGrant at h
  split at h
  · cases h
  next entry =>
    split_ifs at h with hclient huri
    split at h
    · cases h
    next verifier hverifier =>
      split_ifs at h with hpkce
      obtain rfl := Except.ok.inj h
      exact ⟨rfl, not_not.mp hclient, not_not.mp huri, verifier, hverifier, not_not.mp hpkce⟩

theorem takeCode_fst {now : Instant} {code : String} {codes : Codes} {auth : AuthCode}
    (h : (takeCode now code codes).1 = some auth) :
    codes code = some auth ∧ now ≤ auth.expiresAt := by
  unfold takeCode at h
  split at h
  · cases h
  next entry hentry =>
    dsimp only at h
    split_ifs at h with hexp
    obtain rfl := Option.some.inj h
    exact ⟨hentry, not_lt.mp hexp⟩

/-- The code is gone from the table, whatever the checks say. -/
theorem takeCode_snd (now : Instant) (code : String) (codes : Codes) :
    (takeCode now code codes).2 = Function.update codes code none := by
  unfold takeCode
  split
  next hnone => rw [← hnone, Function.update_eq_self]
  · rfl

namespace Issuer

/-! ## One step -/

section Step
variable {cfg : Config} {s t : Issuer} {out : Option Output}

theorem seenTables_of_proceed {reads : Bool} {p : AuthorizeParams}
    {clientId redirectUri scope challenge : String}
    (h : authorize (s.seenTables reads) p = .proceed clientId redirectUri scope challenge) :
    reads = true ∧ authorize s.db p = .proceed clientId redirectUri scope challenge := by
  cases reads with
  | true => exact ⟨rfl, h⟩
  | false =>
    obtain ⟨⟨client, hclient, -⟩, -⟩ := authorize_proceed h
    simp [seenTables, getOidcClientAuth] at hclient

theorem seenTables_of_authenticated {reads : Bool} {basicAuth : Option (String × String)}
    {p : TokenParams} {clientId code : String}
    (h : token (s.seenTables reads) basicAuth p = .authenticated clientId code) :
    reads = true ∧ token s.db basicAuth p = .authenticated clientId code := by
  cases reads with
  | true => exact ⟨rfl, h⟩
  | false =>
    obtain ⟨⟨client, hclient, -⟩, -⟩ := token_authenticated h
    simp [seenTables, getOidcClientAuth] at hclient

/-- A request is refused at once or waits for the user's session. -/
theorem step_authorize {i : Nat} {r : AuthorizeRequest} {cookie : Option String} {reads : Bool}
    (h : s.step cfg (.authorize i r cookie reads) = some (t, out)) :
    t = s ∨ ∃ clientId redirectUri scope challenge, reads = true ∧ out = none ∧
      authorize s.db r.toAuthorizeParams = .proceed clientId redirectUri scope challenge ∧
      t = s.wait i (.authorizing r cookie clientId redirectUri scope challenge) := by
  simp only [step] at h
  split at h
  · unfold beginAuthorize at h
    split at h
    · exact .inl (by simpa using (congrArg Prod.fst (Option.some.inj h)).symm)
    · exact .inl (by simpa using (congrArg Prod.fst (Option.some.inj h)).symm)
    next clientId redirectUri scope challenge hproceed =>
      obtain ⟨rfl, hdb⟩ := seenTables_of_proceed hproceed
      simp only [Option.some.injEq, Prod.mk.injEq] at h
      exact .inr ⟨clientId, redirectUri, scope, challenge, rfl, h.2.symm, hdb, h.1.symm⟩
  · cases h

theorem step_readSession {i : Nat} {reads : Bool}
    (h : s.step cfg (.readSession i reads) = some (t, out)) :
    t = s.finish i ∨ ∃ r cookie clientId redirectUri scope challenge session,
      reads = true ∧ out = none ∧
      s.tasks i = some (.authorizing r (some cookie) clientId redirectUri scope challenge) ∧
      getValidSession s.now s.portalSessions cookie = some session ∧
      t = s.wait i (.loggedIn r clientId redirectUri scope challenge session) := by
  simp only [step] at h
  split at h
  next r cookie clientId redirectUri scope challenge htask =>
    split at h
    · exact .inl (by simpa using (congrArg Prod.fst (Option.some.inj h)).symm)
    next session hsession =>
      unfold currentSession at hsession
      split_ifs at hsession with hreads
      obtain ⟨c, rfl, hvalid⟩ := Option.bind_eq_some_iff.mp hsession
      simp only [Option.some.injEq, Prod.mk.injEq] at h
      exact .inr ⟨r, c, clientId, redirectUri, scope, challenge, session, hreads, h.2.symm, htask,
        hvalid, h.1.symm⟩
  · cases h

theorem step_putCode {i : Nat} {code : String}
    (h : s.step cfg (.putCode i code) = some (t, out)) :
    ∃ r clientId redirectUri scope challenge session,
      s.tasks i = some (.loggedIn r clientId redirectUri scope challenge session) ∧
      out = some (.redirectCode redirectUri code r.state) ∧ t.tasks = (s.finish i).tasks ∧
      t.codes = Function.update s.codes code (some
        ⟨clientId, redirectUri, session.subject, session.email, session.displayName, scope,
          r.nonce, challenge, s.now + secs codeTtlSecs⟩) := by
  simp only [step] at h
  split at h
  next r clientId redirectUri scope challenge session htask =>
    simp only [Option.some.injEq, Prod.mk.injEq] at h
    obtain ⟨rfl, rfl⟩ := h
    exact ⟨r, clientId, redirectUri, scope, challenge, session, htask, rfl, rfl, rfl⟩
  · cases h

theorem step_token {i : Nat} {r : TokenRequest} {basicAuth : Option (String × String)}
    {reads : Bool} (h : s.step cfg (.token i r basicAuth reads) = some (t, out)) :
    t = s ∨ ∃ clientId code, reads = true ∧ out = none ∧
      token s.db basicAuth r.toTokenParams = .authenticated clientId code ∧
      t = s.wait i (.exchanging r basicAuth clientId code) := by
  simp only [step] at h
  split at h
  · unfold beginToken at h
    split at h
    · exact .inl (by simpa using (congrArg Prod.fst (Option.some.inj h)).symm)
    next clientId code hauth =>
      obtain ⟨rfl, hdb⟩ := seenTables_of_authenticated hauth
      simp only [Option.some.injEq, Prod.mk.injEq] at h
      exact .inr ⟨clientId, code, rfl, h.2.symm, hdb, h.1.symm⟩
  · cases h

/-- The code leaves the table in any case; tokens are signed only after every check. -/
theorem step_exchange {i : Nat} {signs : Bool}
    (h : s.step cfg (.exchange i signs) = some (t, out)) :
    ∃ r basicAuth clientId code, s.tasks i = some (.exchanging r basicAuth clientId code) ∧
      t.codes = Function.update s.codes code none ∧
      ((∃ e, out = some (.tokenError e) ∧ t.tasks = (s.finish i).tasks) ∨
        ∃ auth idToken accessToken,
          checkGrant cfg clientId r (takeCode s.now code s.codes).1 = .ok auth ∧
          s.keyring.sign (idClaims cfg auth clientId s.now) = some idToken ∧
          s.keyring.sign (accessClaims cfg auth clientId s.now) = some accessToken ∧
          out = some (.signed code idToken accessToken) ∧
          t.tasks = (s.wait i (.recording clientId auth idToken accessToken)).tasks) := by
  simp only [step] at h
  split at h
  next r basicAuth clientId code htask =>
    refine ⟨r, basicAuth, clientId, code, htask, ?_⟩
    simp only [exchange, takeCode_snd] at h
    split at h
    next e _ =>
      simp only [Option.some.injEq, Prod.mk.injEq] at h
      obtain ⟨rfl, rfl⟩ := h
      exact ⟨rfl, .inl ⟨e, rfl, rfl⟩⟩
    next auth hgrant =>
      split at h
      next idToken accessToken hid hac =>
        simp only [Option.some.injEq, Prod.mk.injEq] at h
        obtain ⟨rfl, rfl⟩ := h
        exact ⟨rfl, .inr ⟨auth, idToken, accessToken, hgrant, hid, hac, rfl, rfl⟩⟩
      · simp only [Option.some.injEq, Prod.mk.injEq] at h
        obtain ⟨rfl, rfl⟩ := h
        exact ⟨rfl, .inl ⟨_, rfl, rfl⟩⟩
  · cases h

/-- No request and no code is in `t` that is not in `s`. -/
structure Shrinks (s t : Issuer) : Prop where
  tasks : ∀ i task, t.tasks i = some task → s.tasks i = some task
  codes : ∀ code auth, t.codes code = some auth → s.codes code = some auth

theorem finish_tasks {i j : Nat} {task : Task} (h : (s.finish i).tasks j = some task) :
    s.tasks j = some task := by
  simp only [finish, Function.update_apply] at h
  split_ifs at h
  exact h

theorem wait_tasks {i j : Nat} {task new : Task} (h : (s.wait i new).tasks j = some task) :
    s.tasks j = some task ∨ (j = i ∧ task = new) := by
  simp only [wait, Function.update_apply] at h
  split_ifs at h with hj
  · exact .inr ⟨hj, (Option.some.inj h).symm⟩
  · exact .inl h

theorem shrinks_finish (i : Nat) : Shrinks s (s.finish i) :=
  ⟨fun _ _ => finish_tasks, fun _ _ h => h⟩

/-- The events that neither start a request nor move one to a further call. -/
def Quiet : Event → Prop
  | .authorize .. | .readSession .. | .putCode .. | .token .. | .exchange .. => False
  | _ => True

theorem step_quiet {e : Event} (quiet : Quiet e) (h : s.step cfg e = some (t, out)) :
    Shrinks s t := by
  cases e with
  | authorize | readSession | putCode | token | exchange => exact quiet.elim
  | record i id stores =>
    simp only [step] at h
    split at h
    · simp only [Option.some.injEq, Prod.mk.injEq] at h
      obtain ⟨rfl, -⟩ := h
      exact ⟨fun _ _ => finish_tasks, fun _ _ h => h⟩
    · cases h
  | restart =>
    simp only [step, Option.some.injEq, Prod.mk.injEq] at h
    obtain ⟨rfl, -⟩ := h
    exact ⟨fun _ _ h => (by cases h), fun _ _ h => (by cases h)⟩
  | _ =>
    simp only [step, Option.some.injEq, Prod.mk.injEq] at h
    obtain ⟨rfl, -⟩ := h
    exact ⟨fun _ _ h => h, fun _ _ h => h⟩

end Step

/-! ## The past of a code and of a request -/

section Past
variable (cfg : Config) (s₀ : Issuer) (past : List Label)

/-- A request of this client passed the checks of `authorize`. -/
def Requested (i : Nat) (r : AuthorizeRequest) (cookie : Option String)
    (clientId redirectUri challenge : String) : Prop :=
  ∃ s, Took (Step cfg) s₀ past s (.authorize i r cookie true, none) ∧
    Registered s.db clientId redirectUri ∧ r.clientId = some clientId ∧
    r.redirectUri = some redirectUri ∧ r.codeChallenge = some challenge

/-- The cookie was that of a valid portal session. -/
def Identified (i : Nat) (cookie : String) (session : PortalSession) : Prop :=
  ∃ s, Took (Step cfg) s₀ past s (.readSession i true, none) ∧
    getValidSession s.now s.portalSessions cookie = some session

/-- The code was given out to a user's request and stands for what that request asked for. -/
def CodeIssued (code : String) (auth : AuthCode) : Prop :=
  ∃ (i : Nat) (r : AuthorizeRequest) (cookie : String) (session : PortalSession) (s : Issuer),
    Requested cfg s₀ past i r (some cookie) auth.clientId auth.redirectUri auth.codeChallenge ∧
    Identified cfg s₀ past i cookie session ∧ auth.subject = session.subject ∧
    Took (Step cfg) s₀ past s
      (.putCode i code, some (.redirectCode auth.redirectUri code r.state)) ∧
    auth.expiresAt = s.now + secs codeTtlSecs

/-- The request came from the client, authenticated, and carries the code. -/
def ClientAuthenticated (i : Nat) (r : TokenRequest) (basicAuth : Option (String × String))
    (clientId code : String) : Prop :=
  ∃ s, Took (Step cfg) s₀ past s (.token i r basicAuth true, none) ∧
    Authenticates s.db clientId (clientCredentials basicAuth r.toTokenParams).2 ∧
    (clientCredentials basicAuth r.toTokenParams).1 = some clientId ∧ r.code = some code

/-- What lies behind a waiting request. -/
def Task.Sound (i : Nat) : Task → Prop
  | .authorizing r cookie clientId redirectUri _ challenge =>
    Requested cfg s₀ past i r cookie clientId redirectUri challenge
  | .loggedIn r clientId redirectUri _ challenge session => ∃ cookie,
    Requested cfg s₀ past i r (some cookie) clientId redirectUri challenge ∧
      Identified cfg s₀ past i cookie session
  | .exchanging r basicAuth clientId code =>
    ClientAuthenticated cfg s₀ past i r basicAuth clientId code
  | .recording .. => True

/-- Every waiting request and every code in the table has its past. -/
structure Sound (s : Issuer) : Prop where
  tasks : ∀ i task, s.tasks i = some task → Task.Sound cfg s₀ past i task
  codes : ∀ code auth, s.codes code = some auth → CodeIssued cfg s₀ past code auth

end Past

section Keep
variable {cfg : Config} {s₀ s t : Issuer} {past : List Label}

theorem Requested.append {i : Nat} {r : AuthorizeRequest} {cookie : Option String}
    {clientId redirectUri challenge : String}
    (h : Requested cfg s₀ past i r cookie clientId redirectUri challenge) (l : Label) :
    Requested cfg s₀ (past ++ [l]) i r cookie clientId redirectUri challenge := by
  obtain ⟨s, took, rest⟩ := h
  exact ⟨s, took.append [l], rest⟩

theorem Identified.append {i : Nat} {cookie : String} {session : PortalSession}
    (h : Identified cfg s₀ past i cookie session) (l : Label) :
    Identified cfg s₀ (past ++ [l]) i cookie session := by
  obtain ⟨s, took, rest⟩ := h
  exact ⟨s, took.append [l], rest⟩

theorem CodeIssued.append {code : String} {auth : AuthCode} (h : CodeIssued cfg s₀ past code auth)
    (l : Label) : CodeIssued cfg s₀ (past ++ [l]) code auth := by
  obtain ⟨i, r, cookie, session, s, requested, identified, hsub, took, hexp⟩ := h
  exact ⟨i, r, cookie, session, s, requested.append l, identified.append l, hsub, took.append [l],
    hexp⟩

theorem Task.Sound.append {i : Nat} {task : Task} (h : Task.Sound cfg s₀ past i task)
    (l : Label) : Task.Sound cfg s₀ (past ++ [l]) i task := by
  cases task with
  | authorizing => exact Requested.append h l
  | loggedIn =>
    obtain ⟨cookie, requested, identified⟩ := h
    exact ⟨cookie, requested.append l, identified.append l⟩
  | exchanging =>
    obtain ⟨s, took, rest⟩ := h
    exact ⟨s, took.append [l], rest⟩
  | recording => trivial

theorem Sound.shrinks (h : Sound cfg s₀ past s) (sub : Shrinks s t) (l : Label) :
    Sound cfg s₀ (past ++ [l]) t where
  tasks i task ht := (h.tasks i task (sub.tasks i task ht)).append l
  codes code auth ht := (h.codes code auth (sub.codes code auth ht)).append l

/-- A step that makes one request wait keeps soundness when the new wait is sound. -/
theorem Sound.waits (h : Sound cfg s₀ past s) {i : Nat} {new : Task} {l : Label}
    (htasks : t.tasks = (s.wait i new).tasks)
    (hcodes : ∀ code auth, t.codes code = some auth → s.codes code = some auth)
    (hnew : Task.Sound cfg s₀ (past ++ [l]) i new) : Sound cfg s₀ (past ++ [l]) t where
  tasks j task ht := by
    rw [htasks] at ht
    obtain hold | ⟨rfl, rfl⟩ := wait_tasks ht
    · exact (h.tasks j task hold).append l
    · exact hnew
  codes code auth ht := (h.codes code auth (hcodes code auth ht)).append l

theorem Sound.step (run : Run (Step cfg) s₀ past s) (h : Sound cfg s₀ past s) {l : Label}
    (hstep : Step cfg s l t) : Sound cfg s₀ (past ++ [l]) t := by
  obtain ⟨e, out⟩ := l
  cases e with
  | authorize i r cookie reads =>
    obtain rfl | ⟨clientId, redirectUri, scope, challenge, rfl, rfl, hproceed, rfl⟩ :=
      step_authorize hstep
    · exact h.shrinks ⟨fun _ _ ht => ht, fun _ _ ht => ht⟩ _
    · exact h.waits rfl (fun _ _ ht => ht)
        ⟨s, Took.last run _, authorize_proceed hproceed⟩
  | readSession i reads =>
    obtain rfl | ⟨r, cookie, clientId, redirectUri, scope, challenge, session, rfl, rfl, htask,
      hvalid, rfl⟩ := step_readSession hstep
    · exact h.shrinks (shrinks_finish i) _
    · have requested : Requested cfg s₀ past i r (some cookie) clientId redirectUri challenge :=
        h.tasks i _ htask
      exact h.waits rfl (fun _ _ ht => ht)
        ⟨cookie, requested.append _, s, Took.last run _, hvalid⟩
  | putCode i code =>
    obtain ⟨r, clientId, redirectUri, scope, challenge, session, htask, rfl, htasks, hcodes⟩ :=
      step_putCode hstep
    obtain ⟨cookie, requested, identified⟩ := h.tasks i _ htask
    refine ⟨fun j task ht => ?_, fun c auth hc => ?_⟩
    · rw [htasks] at ht
      exact (h.tasks j task (finish_tasks ht)).append _
    · rw [hcodes, Function.update_apply] at hc
      split_ifs at hc with hcode
      · obtain rfl := Option.some.inj hc
        subst hcode
        exact ⟨i, r, cookie, session, s, requested.append _, identified.append _, rfl,
          Took.last run _, rfl⟩
      · exact (h.codes c auth hc).append _
  | token i r basicAuth reads =>
    obtain rfl | ⟨clientId, code, rfl, rfl, hauth, rfl⟩ := step_token hstep
    · exact h.shrinks ⟨fun _ _ ht => ht, fun _ _ ht => ht⟩ _
    · exact h.waits rfl (fun _ _ ht => ht) ⟨s, Took.last run _, token_authenticated hauth⟩
  | exchange i signs =>
    obtain ⟨r, basicAuth, clientId, code, htask, hcodes, outcome⟩ := step_exchange hstep
    have fewer : ∀ c auth, t.codes c = some auth → s.codes c = some auth := by
      intro c auth hc
      rw [hcodes, Function.update_apply] at hc
      split_ifs at hc
      exact hc
    obtain ⟨e, -, htasks⟩ | ⟨auth, idToken, accessToken, -, -, -, -, htasks⟩ := outcome
    · exact h.shrinks ⟨fun j task ht => finish_tasks (htasks ▸ ht), fewer⟩ _
    · exact h.waits htasks fewer trivial
  | _ => exact h.shrinks (step_quiet (by exact trivial) hstep) _

theorem Started.sound (start : s₀.Started) : Sound cfg s₀ [] s₀ where
  tasks i task h := by simp [start.tasks] at h
  codes code auth h := by simp [start.codes] at h

theorem sound_of_run (start : s₀.Started) (run : Run (Step cfg) s₀ past s) :
    Sound cfg s₀ past s :=
  Run.induction_last start.sound (fun _ _ _ _ before h hstep => h.step before hstep) run

end Keep

/-! ## How often a code is used -/

def Label.issuedCode : Label → Option String
  | (.putCode _ code, _) => some code
  | _ => none

def Label.signedCode : Label → Option String
  | (_, some (.signed code _ _)) => some code
  | _ => none

/-- The codes that `authorize` drew. -/
def issuedCodes (labels : List Label) : List String := labels.filterMap Label.issuedCode

/-- The codes for which `token` signed tokens. -/
def signedCodes (labels : List Label) : List String := labels.filterMap Label.signedCode

/-- Only an exchange signs tokens. -/
theorem exchange_of_signed {cfg : Config} {s t : Issuer} {e : Event} {code : String}
    {idToken : Jwt IdClaims} {accessToken : Jwt AccessClaims}
    (h : s.step cfg e = some (t, some (.signed code idToken accessToken))) :
    ∃ i signs, e = .exchange i signs := by
  cases e with
  | exchange i signs => exact ⟨i, signs, rfl⟩
  | authorize i r cookie reads =>
    simp only [step, beginAuthorize] at h
    split at h
    · split at h <;> simp at h
    · cases h
  | token i r basicAuth reads =>
    simp only [step, beginToken] at h
    split at h
    · split at h <;> simp at h
    · cases h
  | readSession i reads =>
    simp only [step] at h
    split at h
    · split at h <;> simp at h
    · cases h
  | putCode i code =>
    simp only [step] at h
    split at h <;> simp at h
  | record i id stores =>
    simp only [step] at h
    split at h <;> simp at h
  | _ => simp [step] at h

/-- The table's share of the uses of a code. -/
def pending (s : Issuer) (code : String) : Nat := if (s.codes code).isSome then 1 else 0

/-- The uses of a code and its presence in the table are covered by the times it was drawn. -/
def Counted (past : List Label) (s : Issuer) : Prop :=
  ∀ code, (signedCodes past).count code + s.pending code ≤ (issuedCodes past).count code

section Count
variable {cfg : Config} {s t : Issuer} {past : List Label}

theorem pending_le {code : String}
    (h : ∀ auth, t.codes code = some auth → s.codes code = some auth) :
    t.pending code ≤ s.pending code := by
  unfold pending
  cases ht : t.codes code with
  | none => simp
  | some auth => simp [h auth ht]

/-- A step that neither draws a code nor signs tokens. -/
theorem Counted.other (h : Counted past s) {l : Label} (hissued : l.issuedCode = none)
    (hsigned : l.signedCode = none)
    (hcodes : ∀ code auth, t.codes code = some auth → s.codes code = some auth) :
    Counted (past ++ [l]) t := by
  intro code
  have hold := h code
  have hle := pending_le (hcodes code)
  simp only [signedCodes, issuedCodes, List.filterMap_append, List.filterMap_cons, hissued,
    hsigned, List.filterMap_nil, List.append_nil] at hold ⊢
  omega

theorem Counted.putCode (h : Counted past s) {i : Nat} {code : String} {out : Option Output}
    {entry : AuthCode} (hout : Label.signedCode (.putCode i code, out) = none)
    (hcodes : t.codes = Function.update s.codes code (some entry)) :
    Counted (past ++ [(.putCode i code, out)]) t := by
  intro c
  have hold := h c
  have hissued : Label.issuedCode (.putCode i code, out) = some code := rfl
  simp only [signedCodes, issuedCodes, List.filterMap_append, List.filterMap_cons, hissued, hout,
    List.filterMap_nil, List.append_nil, List.count_append] at hold ⊢
  by_cases hc : c = code
  · subst hc
    have hpend : t.pending c ≤ 1 := by unfold pending; split <;> omega
    simp only [List.count_singleton_self]
    omega
  · have hpend : t.pending c = s.pending c := by
      unfold pending
      rw [hcodes, Function.update_of_ne hc]
    omega

/-- The exchange turns the presence of the code into a use. -/
theorem Counted.signed (h : Counted past s) {i : Nat} {signs : Bool} {code : String}
    {idToken : Jwt IdClaims} {accessToken : Jwt AccessClaims} (hhad : (s.codes code).isSome)
    (hcodes : t.codes = Function.update s.codes code none) :
    Counted (past ++ [(.exchange i signs, some (.signed code idToken accessToken))]) t := by
  intro c
  have hold := h c
  have hissued : Label.issuedCode
      (.exchange i signs, some (.signed code idToken accessToken)) = none := rfl
  have hsigned : Label.signedCode
      (.exchange i signs, some (.signed code idToken accessToken)) = some code := rfl
  simp only [signedCodes, issuedCodes, List.filterMap_append, List.filterMap_cons, hissued,
    hsigned, List.filterMap_nil, List.append_nil, List.count_append] at hold ⊢
  by_cases hc : c = code
  · subst hc
    have hbefore : s.pending c = 1 := by simp [pending, hhad]
    have hafter : t.pending c = 0 := by simp [pending, hcodes]
    simp only [List.count_singleton_self]
    omega
  · have hpend : t.pending c = s.pending c := by
      unfold pending
      rw [hcodes, Function.update_of_ne hc]
    have hnone : List.count c [code] = 0 := List.count_eq_zero.mpr (by simpa using hc)
    omega

theorem Counted.step (h : Counted past s) {l : Label} (hstep : Step cfg s l t) :
    Counted (past ++ [l]) t := by
  obtain ⟨e, out⟩ := l
  -- only an exchange has a signing label
  have unsigned : (∀ i signs, e ≠ .exchange i signs) → Label.signedCode (e, out) = none := by
    intro hne
    unfold Label.signedCode
    split
    next heq =>
      obtain ⟨rfl, rfl⟩ := Prod.mk.inj heq
      obtain ⟨i, signs, he⟩ := exchange_of_signed hstep
      exact absurd he (hne i signs)
    · rfl
  cases e with
  | exchange i signs =>
    obtain ⟨r, basicAuth, clientId, code, htask, hcodes, outcome⟩ := step_exchange hstep
    obtain ⟨e, rfl, -⟩ | ⟨auth, idToken, accessToken, hgrant, -, -, rfl, -⟩ := outcome
    · refine h.other rfl rfl fun c auth hc => ?_
      rw [hcodes, Function.update_apply] at hc
      split_ifs at hc
      exact hc
    · obtain ⟨htaken, -⟩ := checkGrant_ok hgrant
      exact h.signed (by rw [(takeCode_fst htaken).1]; rfl) hcodes
  | putCode i code =>
    obtain ⟨r, clientId, redirectUri, scope, challenge, session, -, -, -, hcodes⟩ :=
      step_putCode hstep
    exact h.putCode (unsigned fun _ _ he => by cases he) hcodes
  | authorize i r cookie reads =>
    refine h.other rfl (unsigned fun _ _ he => by cases he) ?_
    obtain rfl | ⟨_, _, _, _, -, -, -, rfl⟩ := step_authorize hstep <;> exact fun _ _ hc => hc
  | readSession i reads =>
    refine h.other rfl (unsigned fun _ _ he => by cases he) ?_
    obtain rfl | ⟨_, _, _, _, _, _, _, -, -, -, -, rfl⟩ := step_readSession hstep <;>
      exact fun _ _ hc => hc
  | token i r basicAuth reads =>
    refine h.other rfl (unsigned fun _ _ he => by cases he) ?_
    obtain rfl | ⟨_, _, -, -, -, rfl⟩ := step_token hstep <;> exact fun _ _ hc => hc
  | _ =>
    exact h.other rfl (unsigned fun _ _ he => by cases he)
      (step_quiet (by exact trivial) hstep).codes

theorem counted_of_run {s₀ : Issuer} (start : s₀.Started) (run : Run (Step cfg) s₀ past s) :
    Counted past s :=
  Run.induction_last (fun code => by simp [pending, start.codes, signedCodes])
    (fun _ _ _ _ _ h hstep => h.step hstep) run

end Count

/-! ## Tokens -/

/-- Tokens signed at this point of a run, and all that has to lie behind them: a request of the
code's client, authenticated, with the code's redirect URI and the only verifier of its
challenge, before the code expires, for the user of the session that asked for the code. -/
def SoundGrant (cfg : Config) (s₀ : Issuer) (past : List Label) (i : Nat) (code : String)
    (idToken : Jwt IdClaims) (accessToken : Jwt AccessClaims) : Prop :=
  ∃ (s : Issuer) (r : TokenRequest) (basicAuth : Option (String × String)) (auth : AuthCode)
      (verifier : String),
    Run (Step cfg) s₀ past s ∧
    ClientAuthenticated cfg s₀ past i r basicAuth auth.clientId code ∧
    CodeIssued cfg s₀ past code auth ∧
    r.redirectUri = some auth.redirectUri ∧
    r.codeVerifier = some verifier ∧
    (∀ v, cfg.pkceS256 v = auth.codeChallenge ↔ v = verifier) ∧
    s.now ≤ auth.expiresAt ∧
    idToken.claims.sub = auth.subject ∧ accessToken.claims.sub = auth.subject ∧
    idToken.claims.aud = auth.clientId ∧ accessToken.claims.aud = auth.clientId

theorem sign_claims {γ : Type} {ring : Keyring} {claims : γ} {token : Jwt γ}
    (h : ring.sign claims = some token) : token.claims = claims := by
  obtain ⟨_, -, rfl⟩ := Option.map_eq_some_iff.mp h
  rfl

theorem soundGrant_of_step {cfg : Config} (inj : Function.Injective cfg.pkceS256) {s₀ s t : Issuer}
    (start : s₀.Started) {past : List Label} (run : Run (Step cfg) s₀ past s) {i : Nat}
    {signs : Bool} {code : String} {idToken : Jwt IdClaims} {accessToken : Jwt AccessClaims}
    (hstep : Step cfg s (.exchange i signs, some (.signed code idToken accessToken)) t) :
    SoundGrant cfg s₀ past i code idToken accessToken := by
  have sound := sound_of_run start run
  obtain ⟨r, basicAuth, clientId, c, htask, -, outcome⟩ := step_exchange hstep
  obtain ⟨e, he, -⟩ | ⟨auth, idT, acT, hgrant, hid, hac, hout, -⟩ := outcome
  · cases he
  · simp only [Option.some.injEq, Output.signed.injEq] at hout
    obtain ⟨rfl, rfl, rfl⟩ := hout
    obtain ⟨htaken, rfl, huri, verifier, hverifier, hpkce⟩ := checkGrant_ok hgrant
    obtain ⟨hcode, hnow⟩ := takeCode_fst htaken
    have hidc := sign_claims hid
    have hacc := sign_claims hac
    refine ⟨s, r, basicAuth, auth, verifier, run, sound.tasks i _ htask, sound.codes _ _ hcode,
      huri, hverifier, fun v => ⟨fun hv => inj (hv.trans hpkce.symm), fun hv => hv ▸ hpkce⟩, hnow,
      ?_, ?_, ?_, ?_⟩
    · rw [hidc]; rfl
    · rw [hacc]; rfl
    · rw [hidc]; rfl
    · rw [hacc]; rfl

/-- Codes yield tokens at most once, and every pair of tokens has its code, client and user. -/
theorem tokens_follow_codes (cfg : Config) (inj : Function.Injective cfg.pkceS256) (s₀ t : Issuer)
    (start : s₀.Started) (labels : List Label) (run : Run (Step cfg) s₀ labels t)
    (distinct : (issuedCodes labels).Nodup) :
    (signedCodes labels).Nodup ∧
      ∀ past future i signs code idToken accessToken,
        labels = past ++ (.exchange i signs, some (.signed code idToken accessToken)) :: future →
        SoundGrant cfg s₀ past i code idToken accessToken := by
  refine ⟨List.nodup_iff_count_le_one.mpr fun code => ?_, ?_⟩
  · have hcount := counted_of_run start run code
    have hone := List.nodup_iff_count_le_one.mp distinct code
    omega
  · rintro past future i signs code idToken accessToken rfl
    obtain ⟨s, s', before, hstep, -⟩ := run.split_at
    exact soundGrant_of_step inj start before hstep

namespace Sample

def config : Config := ⟨"https://idp.test", id⟩

def wiki : ClientRecord :=
  ⟨"c1", "wiki", "wiki-id", "s3cret", "confidential", ["https://wiki.test/cb"], true, 0⟩

def issuer : Issuer where
  db := { Tables.empty with clients := [wiki] }
  portalSessions := [⟨"cookie", "local:amy", some "Amy", none, secs 100, none⟩]
  ssoSessions := []
  keyring := [⟨"k1", "pem1"⟩]
  codes := fun _ => none
  now := 0
  tasks := fun _ => none

def askCode : AuthorizeRequest where
  clientId := some "wiki-id"
  redirectUri := some "https://wiki.test/cb"
  responseType := some "code"
  scope := some "openid"
  codeChallenge := some "v"
  codeChallengeMethod := some "S256"
  state := none
  nonce := none

def askTokens (secret : Option String) : TokenRequest where
  grantType := some "authorization_code"
  code := some "code"
  clientId := some "wiki-id"
  clientSecret := secret
  redirectUri := some "https://wiki.test/cb"
  codeVerifier := some "v"

/-- A code for the user's session, and a token request for it. -/
def codeFlow (secret : Option String) : List Event :=
  [.authorize 0 askCode (some "cookie") true, .readSession 0 true, .putCode 0 "code",
    .token 1 (askTokens secret) none true]

theorem issuer_started : issuer.Started := ⟨fun _ => rfl, fun _ => rfl⟩

def tokens : Jwt IdClaims × Jwt AccessClaims :=
  (⟨some "k1", "pem1",
      ⟨"https://idp.test", "local:amy", "wiki-id", 3600, 0, none, none, some "Amy"⟩⟩,
    ⟨some "k1", "pem1",
      ⟨"https://idp.test", "local:amy", "wiki-id", 3600, 0, "openid", "access", none,
        some "Amy"⟩⟩)

def codeFlowLabels (secret : Option String) : List Label :=
  [(.authorize 0 askCode (some "cookie") true, none), (.readSession 0 true, none),
    (.putCode 0 "code", some (.redirectCode "https://wiki.test/cb" "code" none)),
    (.token 1 (askTokens secret) none true, none)]

def signing : Label :=
  (.exchange 1 true, some (.signed "code" tokens.1 tokens.2))

theorem tokens_follow_codes_wiki :
    (∃ t, Run (Step config) issuer (codeFlowLabels (some "s3cret") ++ [signing]) t) ∧
      (issuedCodes (codeFlowLabels (some "s3cret") ++ [signing])).Nodup ∧
      signedCodes (codeFlowLabels (some "s3cret") ++ [signing]) = ["code"] ∧
      SoundGrant config issuer (codeFlowLabels (some "s3cret")) 1 "code"
        tokens.1 tokens.2 := by
  obtain ⟨labels, t, run, rfl⟩ := exists_run config issuer
    (codeFlow (some "s3cret") ++ [.exchange 1 true])
    (fun labels _ => labels = codeFlowLabels (some "s3cret") ++ [signing]) (by decide +kernel)
  have distinct : (issuedCodes (codeFlowLabels (some "s3cret") ++ [signing])).Nodup := by
    decide +kernel
  obtain ⟨-, sound⟩ := tokens_follow_codes config (fun _ _ h => h) issuer t
    issuer_started _ run distinct
  exact ⟨⟨t, run⟩, distinct, by decide +kernel, sound _ [] 1 true "code" _ _ rfl⟩

/-- The client is turned into a public one; its row keeps the secret. -/
def madePublic : Event := .edit (.updateOidcClient 0 { wiki with clientType := "public" })

/-- A client that has a secret gets tokens without showing it. -/
theorem public_client_keeps_secret :
    ∃ s t, Run (Step config) issuer ((madePublic, none) :: codeFlowLabels none) s ∧
      Step config s signing t ∧
      (getOidcClientAuth s.db "wiki-id").map (·.clientSecret) = some "s3cret" ∧
      (clientCredentials none (askTokens none).toTokenParams).2 = none := by
  obtain ⟨labels, s, run, rfl, hsecret, hout⟩ := exists_run config issuer
    (madePublic :: codeFlow none)
    (fun labels s => labels = (madePublic, none) :: codeFlowLabels none ∧
      (getOidcClientAuth s.db "wiki-id").map (·.clientSecret) = some "s3cret" ∧
      (s.step config signing.1).map Prod.snd = some signing.2)
    (by decide +kernel)
  obtain ⟨⟨t, out⟩, hstep, rfl⟩ := Option.map_eq_some_iff.mp hout
  exact ⟨s, t, run, hstep, hsecret, rfl⟩

end Sample

end Issuer

end Magnetite.Sso
