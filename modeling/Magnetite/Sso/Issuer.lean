import Magnetite.Lib.History
import Magnetite.Sso.Endpoints
import Mathlib.Logic.Function.Basic

/-!
# The OIDC issuer

`authorize`, `token` and `userinfo` with the sessions, the table of codes and the keyring they
work on. A request stops at every database call, and the requests of all parties, the
administration and the clock take their steps in any order.

A signed token stands for its claims together with the `kid` of its header and the private key
that signed it.
-/
namespace Magnetite.Sso
open Lib

/-! ## Time -/

/-- Instants count nanoseconds, as `chrono` does. -/
def secs (n : Nat) : Instant := n * 1000000000

/-- `timestamp()`. -/
def timestamp (now : Instant) : Nat := now / 1000000000

def codeTtlSecs : Nat := 60
def tokenTtlSecs : Nat := 3600

/-! ## Sessions -/

/-- A row of `session`, the portal's own sessions. -/
structure PortalSession where
  sessionId : String
  subject : String
  displayName : Option String
  email : Option String
  expiresAt : Instant
  revokedAt : Option Instant
  deriving DecidableEq, Repr

def PortalSession.isValidAt (now : Instant) (r : PortalSession) : Bool :=
  r.revokedAt.isNone && decide (now < r.expiresAt)

def getValidSession (now : Instant) (rows : List PortalSession) (sessionId : String) :
    Option PortalSession :=
  (rows.find? (·.sessionId == sessionId)).filter (PortalSession.isValidAt now)

/-- A row of `sso_session`. -/
structure SsoSession where
  id : String
  subject : String
  clientRef : Option String
  providerRef : Option String
  scopes : List String
  issuedAt : Instant
  expiresAt : Instant
  revokedAt : Option Instant
  deriving DecidableEq, Repr

def SsoSession.revoke (now : Instant) (r : SsoSession) : SsoSession :=
  { r with revokedAt := some (r.revokedAt.getD now) }

def revokeSsoSession (now : Instant) (id : String) (rows : List SsoSession) : List SsoSession :=
  Rows.update (·.id) id (SsoSession.revoke now) rows

/-- The column by which `revoke_sessions_where` chooses its rows. -/
inductive SessionField where
  | subject | clientRef | providerRef
  deriving DecidableEq, Repr

def SessionField.read (field : SessionField) (r : SsoSession) : Option String :=
  match field with
  | .subject => some r.subject
  | .clientRef => r.clientRef
  | .providerRef => r.providerRef

def revokeSessionsWhere (now : Instant) (field : SessionField) (value : String)
    (rows : List SsoSession) : List SsoSession :=
  Rows.update field.read (some value) (SsoSession.revoke now) rows

/-! ## Tokens -/

structure IdClaims where
  iss : String
  sub : String
  aud : String
  exp : Nat
  iat : Nat
  nonce : Option String
  email : Option String
  name : Option String
  deriving DecidableEq, Repr

structure AccessClaims where
  iss : String
  sub : String
  aud : String
  exp : Nat
  iat : Nat
  scope : String
  tokenUse : String
  email : Option String
  name : Option String
  deriving DecidableEq, Repr

structure Jwt (γ : Type) where
  kid : Option String
  signedWith : String
  claims : γ
  deriving DecidableEq, Repr

structure SigningKey where
  kid : String
  privatePem : String
  deriving DecidableEq, Repr

/-- The first key is the active signer. -/
abbrev Keyring := List SigningKey

def Keyring.sign {γ : Type} (ring : Keyring) (claims : γ) : Option (Jwt γ) :=
  ring.head?.map fun active => ⟨some active.kid, active.privatePem, claims⟩

/-- The key that `decode` verifies a token with. -/
def Keyring.keyFor (ring : Keyring) (kid : Option String) : Option SigningKey :=
  match kid with
  | some want => ring.find? (·.kid == want)
  | none => ring.head?

/-- The leeway that `Validation::new` gives the expiry, in seconds. -/
def leeway : Nat := 60

/-- `decode` under the validation that `userinfo` asks for: signature, issuer and expiry. -/
def Keyring.decode (ring : Keyring) (issuer : String) (now : Instant) (t : Jwt AccessClaims) :
    Option AccessClaims :=
  match ring.keyFor t.kid with
  | none => none
  | some key =>
    if key.privatePem ≠ t.signedWith then none
    else if t.claims.iss ≠ issuer then none
    else if t.claims.exp + leeway < timestamp now then none
    else some t.claims

/-! ## Codes -/

structure AuthCode where
  clientId : String
  redirectUri : String
  subject : String
  email : Option String
  name : Option String
  scope : String
  nonce : Option String
  codeChallenge : String
  expiresAt : Instant
  deriving DecidableEq, Repr

abbrev Codes := String → Option AuthCode

def putCode (code : String) (entry : AuthCode) (codes : Codes) : Codes :=
  Function.update codes code (some entry)

/-- Removes the code whether or not it is still valid. -/
def takeCode (now : Instant) (code : String) (codes : Codes) : Option AuthCode × Codes :=
  match codes code with
  | none => (none, codes)
  | some entry =>
    (if entry.expiresAt < now then none else some entry, Function.update codes code none)

/-! ## Requests -/

structure AuthorizeRequest extends AuthorizeParams where
  state : Option String
  nonce : Option String
  deriving DecidableEq, Repr

structure TokenRequest extends TokenParams where
  redirectUri : Option String
  codeVerifier : Option String
  deriving DecidableEq, Repr

/-- What the `Authorization` header of a `userinfo` request holds. -/
inductive Bearer where
  | missing
  | unreadable
  | token (t : Jwt AccessClaims)
  deriving DecidableEq, Repr

structure TokenError where
  status : Nat
  error : String
  description : String
  deriving DecidableEq, Repr

/-- `pkceS256` is base64url of SHA-256. -/
structure Config where
  issuer : String
  pkceS256 : String → String

/-- The checks of `token` on the code it has taken. -/
def checkGrant (cfg : Config) (clientId : String) (r : TokenRequest) (taken : Option AuthCode) :
    Except TokenError AuthCode :=
  match taken with
  | none => .error ⟨400, "invalid_grant", "code is invalid or expired"⟩
  | some auth =>
    if auth.clientId ≠ clientId then
      .error ⟨400, "invalid_grant", "code was issued to another client"⟩
    else if r.redirectUri ≠ some auth.redirectUri then
      .error ⟨400, "invalid_grant", "redirect_uri mismatch"⟩
    else match r.codeVerifier with
      | none => .error ⟨400, "invalid_request", "code_verifier is required"⟩
      | some verifier =>
        if cfg.pkceS256 verifier ≠ auth.codeChallenge then
          .error ⟨400, "invalid_grant", "PKCE verification failed"⟩
        else .ok auth

def idClaims (cfg : Config) (auth : AuthCode) (clientId : String) (now : Instant) : IdClaims where
  iss := cfg.issuer
  sub := auth.subject
  aud := clientId
  exp := timestamp now + tokenTtlSecs
  iat := timestamp now
  nonce := auth.nonce
  email := auth.email
  name := auth.name

def accessClaims (cfg : Config) (auth : AuthCode) (clientId : String) (now : Instant) :
    AccessClaims where
  iss := cfg.issuer
  sub := auth.subject
  aud := clientId
  exp := timestamp now + tokenTtlSecs
  iat := timestamp now
  scope := auth.scope
  tokenUse := "access"
  email := auth.email
  name := auth.name

/-- `split_whitespace`. -/
def splitWhitespace (text : String) : List String :=
  ((text.toList.splitOnP Text.isWhitespace).filter (· ≠ [])).map String.ofList

/-- The row that `create_sso_session` writes for a token. -/
def ssoSessionRow (now : Instant) (id clientId : String) (auth : AuthCode) : SsoSession where
  id := id
  subject := auth.subject
  clientRef := some clientId
  providerRef := none
  scopes := splitWhitespace auth.scope
  issuedAt := now
  expiresAt := now + secs (tokenTtlSecs / 3600 * 3600)
  revokedAt := none

inductive UserInfo where
  | unauthorized (message : String)
  | claims (sub : String) (email name : Option String)
  deriving DecidableEq, Repr

def userinfo (cfg : Config) (ring : Keyring) (now : Instant) (bearer : Bearer) : UserInfo :=
  match bearer with
  | .missing => .unauthorized "missing bearer token"
  | .unreadable => .unauthorized "invalid access token"
  | .token t =>
    match ring.decode cfg.issuer now t with
    | none => .unauthorized "invalid access token"
    | some c => .claims c.sub c.email c.name

/-! ## The system -/

/-- Where a request waits for its next database call or for its turn at the code table. -/
inductive Task where
  | authorizing (r : AuthorizeRequest) (cookie : Option String)
      (clientId redirectUri scope codeChallenge : String)
  | loggedIn (r : AuthorizeRequest) (clientId redirectUri scope codeChallenge : String)
      (session : PortalSession)
  | exchanging (r : TokenRequest) (basicAuth : Option (String × String)) (clientId code : String)
  | recording (clientId : String) (auth : AuthCode) (idToken : Jwt IdClaims)
      (accessToken : Jwt AccessClaims)
  deriving DecidableEq, Repr

structure Issuer where
  db : Tables
  portalSessions : List PortalSession
  ssoSessions : List SsoSession
  keyring : Keyring
  codes : Codes
  now : Instant
  tasks : Nat → Option Task

/-- The flag of a step that reads or writes the database says whether the call succeeds. -/
inductive Event where
  | authorize (i : Nat) (r : AuthorizeRequest) (cookie : Option String) (reads : Bool)
  | readSession (i : Nat) (reads : Bool)
  | putCode (i : Nat) (code : String)
  | token (i : Nat) (r : TokenRequest) (basicAuth : Option (String × String)) (reads : Bool)
  | exchange (i : Nat) (signs : Bool)
  | record (i : Nat) (id : String) (stores : Bool)
  | userinfo (bearer : Bearer)
  | edit (e : Edit)
  | setPortalSessions (rows : List PortalSession)
  | revokeSession (id : String)
  | revokeWhere (field : SessionField) (value : String)
  | setKeyring (ring : Keyring)
  | tick (d : Nat)
  | restart
  deriving DecidableEq, Repr

/-- What a step gives out: replies, and the tokens that `token` signs for a code. -/
inductive Output where
  | badRequest (message : String)
  | redirectError (redirectUri error : String) (state : Option String)
  | login
  | redirectCode (redirectUri code : String) (state : Option String)
  | tokenError (e : TokenError)
  | signed (code : String) (idToken : Jwt IdClaims) (accessToken : Jwt AccessClaims)
  | tokens (idToken : Jwt IdClaims) (accessToken : Jwt AccessClaims) (scope : String)
  | userinfo (u : UserInfo)
  deriving DecidableEq, Repr

namespace Issuer

/-- A failed read of the client is treated as no client (`.ok().flatten()`). -/
def seenTables (s : Issuer) (reads : Bool) : Tables :=
  if reads then s.db else { s.db with clients := [] }

def wait (s : Issuer) (i : Nat) (task : Task) : Issuer :=
  { s with tasks := Function.update s.tasks i (some task) }

def finish (s : Issuer) (i : Nat) : Issuer :=
  { s with tasks := Function.update s.tasks i none }

def beginAuthorize (s : Issuer) (i : Nat) (r : AuthorizeRequest) (cookie : Option String)
    (reads : Bool) : Issuer × Option Output :=
  match authorize (s.seenTables reads) r.toAuthorizeParams with
  | .badRequest message => (s, some (.badRequest message))
  | .redirectError redirectUri error => (s, some (.redirectError redirectUri error r.state))
  | .proceed clientId redirectUri scope challenge =>
    (s.wait i (.authorizing r cookie clientId redirectUri scope challenge), none)

def currentSession (s : Issuer) (cookie : Option String) (reads : Bool) : Option PortalSession :=
  if reads then cookie.bind (getValidSession s.now s.portalSessions) else none

def beginToken (s : Issuer) (i : Nat) (r : TokenRequest) (basicAuth : Option (String × String))
    (reads : Bool) : Issuer × Option Output :=
  match token (s.seenTables reads) basicAuth r.toTokenParams with
  | .error status error description => (s, some (.tokenError ⟨status, error, description⟩))
  | .authenticated clientId code => (s.wait i (.exchanging r basicAuth clientId code), none)

/-- From `take_code` to the signed tokens there is no `await`. -/
def exchange (cfg : Config) (s : Issuer) (i : Nat) (r : TokenRequest) (clientId code : String)
    (signs : Bool) : Issuer × Option Output :=
  let (taken, codes) := takeCode s.now code s.codes
  let s := { s with codes := codes }
  match checkGrant cfg clientId r taken with
  | .error e => (s.finish i, some (.tokenError e))
  | .ok auth =>
    match s.keyring.sign (idClaims cfg auth clientId s.now),
        s.keyring.sign (accessClaims cfg auth clientId s.now), signs with
    | some idToken, some accessToken, true =>
      (s.wait i (.recording clientId auth idToken accessToken),
        some (.signed code idToken accessToken))
    | _, _, _ =>
      (s.finish i, some (.tokenError ⟨500, "server_error", "token signing failed"⟩))

def step (cfg : Config) (s : Issuer) : Event → Option (Issuer × Option Output)
  | .authorize i r cookie reads =>
    match s.tasks i with
    | none => some (s.beginAuthorize i r cookie reads)
    | some _ => none
  | .readSession i reads =>
    match s.tasks i with
    | some (.authorizing r cookie clientId redirectUri scope challenge) =>
      match s.currentSession cookie reads with
      | none => some (s.finish i, some .login)
      | some session =>
        some (s.wait i (.loggedIn r clientId redirectUri scope challenge session), none)
    | _ => none
  | .putCode i code =>
    match s.tasks i with
    | some (.loggedIn r clientId redirectUri scope challenge session) =>
      let entry : AuthCode :=
        { clientId := clientId, redirectUri := redirectUri, subject := session.subject
          email := session.email, name := session.displayName, scope := scope
          nonce := r.nonce, codeChallenge := challenge
          expiresAt := s.now + secs codeTtlSecs }
      some ({ s.finish i with codes := putCode code entry s.codes },
        some (.redirectCode redirectUri code r.state))
    | _ => none
  | .token i r basicAuth reads =>
    match s.tasks i with
    | none => some (s.beginToken i r basicAuth reads)
    | some _ => none
  | .exchange i signs =>
    match s.tasks i with
    | some (.exchanging r _ clientId code) => some (s.exchange cfg i r clientId code signs)
    | _ => none
  | .record i id stores =>
    match s.tasks i with
    | some (.recording clientId auth idToken accessToken) =>
      let rows :=
        if stores then s.ssoSessions ++ [ssoSessionRow s.now id clientId auth] else s.ssoSessions
      some ({ s.finish i with ssoSessions := rows },
        some (.tokens idToken accessToken auth.scope))
    | _ => none
  | .userinfo bearer => some (s, some (.userinfo (Sso.userinfo cfg s.keyring s.now bearer)))
  | .edit e => some ({ s with db := e.exec s.db }, none)
  | .setPortalSessions rows => some ({ s with portalSessions := rows }, none)
  | .revokeSession id =>
    some ({ s with ssoSessions := revokeSsoSession s.now id s.ssoSessions }, none)
  | .revokeWhere field value =>
    some ({ s with ssoSessions := revokeSessionsWhere s.now field value s.ssoSessions }, none)
  | .setKeyring ring => some ({ s with keyring := ring }, none)
  | .tick d => some ({ s with now := s.now + d }, none)
  -- codes and requests live in memory
  | .restart => some ({ s with codes := fun _ => none, tasks := fun _ => none }, none)

/-- A label is an event with what its step gives out. -/
abbrev Label := Event × Option Output

def Step (cfg : Config) (s : Issuer) (l : Label) (t : Issuer) : Prop :=
  s.step cfg l.1 = some (t, l.2)

theorem Step.deterministic {cfg : Config} {s t u : Issuer} {l : Label} (h : Step cfg s l t)
    (h' : Step cfg s l u) : t = u :=
  congrArg Prod.fst (Option.some.inj (h.symm.trans h'))

theorem exists_run (cfg : Config) (s : Issuer) (events : List Event)
    (P : List Label → Issuer → Prop) [∀ labels t, Decidable (P labels t)]
    (h : (trace (step cfg) s events).any (fun p => decide (P p.1 p.2)) = true) :
    ∃ labels t, Run (Step cfg) s labels t ∧ P labels t :=
  exists_run_of_trace (step cfg) s events P h

/-- A node that has started: no code and no request from before. -/
structure Started (s : Issuer) : Prop where
  codes : ∀ code, s.codes code = none
  tasks : ∀ i, s.tasks i = none

end Issuer

end Magnetite.Sso
