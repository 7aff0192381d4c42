import Magnetite.Sso.Store

/-!
# Client checks of the OIDC endpoints

`authorize` and `token` up to the point from which they work with the user's session and the
issued code, which are local to the node.
-/
namespace Magnetite.Sso
open Lib Text

structure AuthorizeParams where
  clientId : Option String
  redirectUri : Option String
  responseType : Option String
  scope : Option String
  codeChallenge : Option String
  codeChallengeMethod : Option String
  deriving DecidableEq, Repr

/-- `proceed` goes on to the user's session and issues a code bound to these values. -/
inductive AuthorizeReply where
  | badRequest (message : String)
  | redirectError (redirectUri error : String)
  | proceed (clientId redirectUri scope codeChallenge : String)
  deriving DecidableEq, Repr

/-- `split_whitespace` finds the word. -/
def hasWord (word text : String) : Bool :=
  (text.toList.splitOnP isWhitespace).any fun cs => String.ofList cs == word

def authorize (db : Tables) (p : AuthorizeParams) : AuthorizeReply :=
  match p.clientId, p.redirectUri with
  | some clientId, some redirectUri =>
    match getOidcClientAuth db clientId with
    | none => .badRequest "unknown client_id"
    | some client =>
      if !client.enabled then .badRequest "client is disabled"
      else if !client.redirectUris.contains redirectUri then
        .badRequest "redirect_uri is not registered"
      else if p.responseType ≠ some "code" then
        .redirectError redirectUri "unsupported_response_type"
      else if !hasWord "openid" (p.scope.getD "") then .redirectError redirectUri "invalid_scope"
      else match p.codeChallenge, p.codeChallengeMethod with
        | some challenge, some method =>
          if method ≠ "S256" then .redirectError redirectUri "invalid_request"
          else .proceed clientId redirectUri (p.scope.getD "") challenge
        | _, _ => .redirectError redirectUri "invalid_request"
  | _, _ => .badRequest "client_id and redirect_uri are required"

structure TokenParams where
  grantType : Option String
  code : Option String
  clientId : Option String
  clientSecret : Option String
  deriving DecidableEq, Repr

/-- `authenticated` goes on to exchange the code for the client. -/
inductive TokenReply where
  | error (status : Nat) (error description : String)
  | authenticated (clientId code : String)
  deriving DecidableEq, Repr

/-- Credentials from the `Authorization` header when it has readable ones, else from the form. -/
def clientCredentials (basicAuth : Option (String × String)) (p : TokenParams) :
    Option String × Option String :=
  match basicAuth with
  | some (id, secret) => (some id, some secret)
  | none => (p.clientId, p.clientSecret)

def token (db : Tables) (basicAuth : Option (String × String)) (p : TokenParams) : TokenReply :=
  if p.grantType ≠ some "authorization_code" then
    .error 400 "unsupported_grant_type" "only authorization_code is supported"
  else match p.code with
    | none => .error 400 "invalid_request" "code is required"
    | some code =>
      let (clientId, clientSecret) := clientCredentials basicAuth p
      match clientId with
      | none => .error 401 "invalid_client" "client_id is required"
      | some clientId =>
        match getOidcClientAuth db clientId with
        | none => .error 401 "invalid_client" "unknown client"
        | some client =>
          if !client.enabled then .error 401 "invalid_client" "client is disabled"
          else
            let isPublic := client.clientType == "public" || client.clientSecret == ""
            if !isPublic && clientSecret ≠ some client.clientSecret then
              .error 401 "invalid_client" "invalid client secret"
            else .authenticated clientId code

end Magnetite.Sso
