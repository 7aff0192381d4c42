import Magnetite.Proxy.Router
import Magnetite.Lib.Rows
import Magnetite.Lib.System
import Mathlib.Data.String.Basic

/-!
# Request handling

`handle` and `handleTcp` over a loaded configuration, up to the choice of the upstream that the
request or the stream goes to. What is relayed from there on does not depend on the rules.
-/
namespace Magnetite.Proxy
open Lib Text Net

structure ProxyCfgSnapshot where
  vhosts : List VirtualHost
  blocks : List IpBlock
  acls : List AclRule

/-- The shared context of a request: pending ACME challenges, the request counter, the requests
in flight for each upstream, the hasher and the clock. -/
structure Ctx where
  config : ProxyCfgSnapshot
  acmeChallenges : List (String × String)
  counter : Nat
  inflight : Upstream → Nat
  hashIp : IpAddr → Nat
  now : Instant

/-- `host` is the `Host` header when it is readable text; `authority` and `pathAndQuery` are parts
of the request target that may be absent. -/
structure Request where
  path : String
  pathAndQuery : Option String
  host : Option String
  authority : Option String
  deriving DecidableEq, Repr

inductive Reply where
  | challenge (keyAuth : String)
  | status (code : Nat) (message : String)
  | redirect (location : String)
  | proxied (vhost : VirtualHost) (upstream : Upstream)
  deriving DecidableEq, Repr

def acmePrefix : String := "/.well-known/acme-challenge/"

/-- Challenge paths are answered before any routing. -/
def acmeChallengeResponse (challenges : List (String × String)) (path : String) : Option Reply :=
  if startsWith path acmePrefix then
    let token := String.ofList (path.toList.drop acmePrefix.toList.length)
    some <| match challenges.lookup token with
      | some keyAuth => .challenge keyAuth
      | none => .status 404 "unknown acme challenge"
  else none

def Request.routingHost (req : Request) : String := (req.host <|> req.authority).getD ""

def Request.routingPath (req : Request) : String := req.pathAndQuery.getD "/"

def handle (ctx : Ctx) (peer : IpAddr) (secure : Bool) (req : Request) : Reply :=
  match acmeChallengeResponse ctx.acmeChallenges req.path with
  | some resp => resp
  | none =>
    let host := req.routingHost
    let path := req.routingPath
    if isBlocked ctx.config.blocks peer ctx.now then .status 403 "blocked"
    else match matchVhost ctx.config.vhosts host path with
      | none => .status 404 "no matching virtual host"
      | some vhost =>
        if vhost.forceHttps && !secure then
          .redirect ("https://" ++ beforeFirst ':' host ++ path)
        else if aclDecision ctx.config.acls peer vhost.id = .deny then .status 403 "denied by ACL"
        else match selectUpstream ctx.hashIp vhost.upstream vhost.lbStrategy peer ctx.counter
            ctx.inflight with
          | none => .status 502 "no upstream configured"
          | some upstream => .proxied vhost upstream

/-- Where the handling of a stream ends. All but the last close the stream without a word. -/
inductive StreamEnd where
  | blocked
  | noVhost
  | denied
  | noUpstream
  | proxied (vhost : VirtualHost) (upstream : Upstream)
  deriving DecidableEq, Repr

/-- `preread` holds the bytes of the client's first read, none when it timed out. -/
def handleTcp (ctx : Ctx) (peer : IpAddr) (port : Nat) (preread : List UInt8) : StreamEnd :=
  let sni := parseSni (preread.take 4096)
  if isBlocked ctx.config.blocks peer ctx.now then .blocked
  else match matchTcpVhost ctx.config.vhosts sni port with
    | none => .noVhost
    | some vhost =>
      if aclDecision ctx.config.acls peer vhost.id = .deny then .denied
      else match selectUpstream ctx.hashIp vhost.upstream vhost.lbStrategy peer ctx.counter
          ctx.inflight with
        | none => .noUpstream
        | some upstream => .proxied vhost upstream

end Magnetite.Proxy
