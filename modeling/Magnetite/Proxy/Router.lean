import Magnetite.Lib.Net
import Magnetite.Lib.FirstMatch

/-!
# Routing and access decisions

The pure decisions of the reverse proxy over a loaded configuration: host matching, the block
list, access rules, network containment and the choice of an upstream. Fields that no decision
reads (author, creation, description, certificate, order in the list) are left out; instants are
counted from the epoch.
-/
namespace Magnetite.Proxy
open Lib Text Net

/-! ## Configuration -/

abbrev Instant := Nat

inductive UpstreamScheme where
  | http | https
  deriving DecidableEq, Repr

structure Upstream where
  host : String
  port : Nat
  weight : Nat
  scheme : UpstreamScheme
  deriving DecidableEq, Repr

inductive ProxyMode where
  | http | tcp
  deriving DecidableEq, Repr

inductive LbStrategy where
  | roundRobin | leastConn | ipHash | weighted
  deriving DecidableEq, Repr

structure VirtualHost where
  id : String
  hostname : String
  pathPrefix : Option String
  listenPort : Nat
  upstream : List Upstream
  forceHttps : Bool
  proxyMode : ProxyMode
  lbStrategy : LbStrategy
  enabled : Bool
  deriving DecidableEq, Repr

inductive AclAction where
  | allow | deny
  deriving DecidableEq, Repr

inductive AclScope where
  | global | vhost
  deriving DecidableEq, Repr

/-- `vhostRef` is the host name of the target; it is required at scope `vhost`. -/
structure AclRule where
  cidr : String
  action : AclAction
  scope : AclScope
  vhostRef : Option String
  priority : Int
  enabled : Bool
  deriving DecidableEq, Repr

structure IpBlock where
  cidr : String
  expiresAt : Option Instant
  enabled : Bool
  deriving DecidableEq, Repr

/-! ## Networks -/

/-- The mask of the leading `len` bits. The shift by the full width is avoided, as the machine
shift would overflow. -/
def prefixMask (w len : Nat) : BitVec w :=
  if len = 0 then 0 else BitVec.allOnes w <<< (w - len)

/-- An unreadable prefix length counts as the full width, so does a missing one. -/
def prefixLen (w : Nat) (text : String) : Nat := min ((parseUnsigned 32 text).getD w) w

/-- Mismatched families never match. -/
def agreeOnPrefix (net ip : IpAddr) (len : String) : Bool :=
  match net, ip with
  | .v4 n, .v4 a =>
    (n &&& prefixMask 32 (prefixLen 32 len)) == (a &&& prefixMask 32 (prefixLen 32 len))
  | .v6 n, .v6 a =>
    (n &&& prefixMask 128 (prefixLen 128 len)) == (a &&& prefixMask 128 (prefixLen 128 len))
  | _, _ => false

/-- A bare address stands for itself alone. -/
def cidrContains (cidr : String) (ip : IpAddr) : Bool :=
  let parts := (splitOnce '/' cidr).getD (cidr, "")
  match parseIpAddr (trim parts.1) with
  | none => false
  | some net => agreeOnPrefix net ip parts.2

/-- `Iterator::max_by_key`: the last of the elements with the largest key. -/
def maxByKey {α : Type} (key : α → Nat) : List α → Option α
  | [] => none
  | x :: xs => match maxByKey key xs with
    | none => some x
    | some y => if key x ≤ key y then some y else some x

/-- Among the enabled HTTP hosts of that name whose path prefix fits, the longest prefix wins;
an absent or empty prefix is the default route of the host. -/
def matchVhost (vhosts : List VirtualHost) (host path : String) : Option VirtualHost :=
  let host := toAsciiLowercase (trim (beforeFirst ':' host))
  let named := vhosts.filter fun v =>
    v.enabled && v.proxyMode == .http && eqIgnoreAsciiCase v.hostname host
  let fitting := named.filter fun v => match v.pathPrefix.filter (· ≠ "") with
    | none => true
    | some p => startsWith path p
  maxByKey (fun v => (v.pathPrefix.map String.utf8ByteSize).getD 0) fitting

/-- By TLS server name when there is one and it is known, else by the port of arrival. -/
def matchTcpVhost (vhosts : List VirtualHost) (sni : Option String) (port : Nat) :
    Option VirtualHost :=
  let byName := sni.bind fun name =>
    let name := toAsciiLowercase (trim name)
    vhosts.find? fun v => v.enabled && v.proxyMode == .tcp && eqIgnoreAsciiCase v.hostname name
  byName <|> vhosts.find? fun v => v.enabled && v.proxyMode == .tcp && v.listenPort == port

def be16 (b : List UInt8) (i : Nat) : Nat := (b.getD i 0).toNat * 256 + (b.getD (i + 1) 0).toNat

/-- The first host name among the entries of a server-name list. Each entry takes at least three
bytes, so the length of the list bounds the number of rounds. -/
def sniEntry (d : List UInt8) : Nat → Nat → Option String
  | 0, _ => none
  | fuel + 1, q =>
    if q + 3 ≤ d.length then
      let nameStart := q + 3
      let nameEnd := min (nameStart + be16 d (q + 1)) d.length
      if d.getD q 0 = 0 then
        String.fromUTF8? ⟨((d.drop nameStart).take (nameEnd - nameStart)).toArray⟩
      else sniEntry d fuel nameEnd
    else none

/-- The extensions of a ClientHello from `p` on, up to the server-name one. -/
def sniExtension (hs : List UInt8) (extEnd : Nat) : Nat → Nat → Option String
  | 0, _ => none
  | fuel + 1, p =>
    if p + 4 ≤ extEnd then
      let dataStart := p + 4
      let dataEnd := min (dataStart + be16 hs (p + 2)) hs.length
      if be16 hs p = 0 then
        let d := (hs.drop dataStart).take (dataEnd - dataStart)
        sniEntry d d.length 2
      else sniExtension hs extEnd fuel dataEnd
    else none

/-- The server name of a buffered TLS ClientHello, absent for other bytes. -/
def parseSni (buf : List UInt8) : Option String := do
  guard (5 ≤ buf.length ∧ buf.getD 0 0 = 0x16)
  let recEnd := min (5 + be16 buf 3) buf.length
  let hs := (buf.drop 5).take (recEnd - 5)
  guard (4 ≤ hs.length ∧ hs.getD 0 0 = 0x01)
  let p := 4 + 2 + 32
  guard (p + 1 ≤ hs.length)
  let p := p + (1 + (hs.getD p 0).toNat)
  guard (p + 2 ≤ hs.length)
  let p := p + (2 + be16 hs p)
  guard (p + 1 ≤ hs.length)
  let p := p + (1 + (hs.getD p 0).toNat)
  guard (p + 2 ≤ hs.length)
  let extEnd := min (p + 2 + be16 hs p) hs.length
  sniExtension hs extEnd hs.length (p + 2)

def isBlocked (blocks : List IpBlock) (ip : IpAddr) (now : Instant) : Bool :=
  blocks.any fun b =>
    b.enabled && (b.expiresAt.map fun e => decide (now < e)).getD true && cidrContains b.cidr ip

/-- Global rules are in scope for every host. -/
def AclRule.inScope (vhostId : String) (r : AclRule) : Bool :=
  match r.scope with
  | .global => true
  | .vhost => r.vhostRef == some vhostId

/-- Rules in scope by ascending priority, the first network that contains the address decides;
the default is to allow. -/
def aclDecision (rules : List AclRule) (ip : IpAddr) (vhostId : String) : AclAction :=
  let applicable := (rules.filter (·.enabled)).filter (·.inScope vhostId)
  (((sortByKey (·.priority) applicable).find? fun r => cidrContains r.cidr ip).map
    (·.action)).getD .allow

/-- Position of the upstream that a counter value selects when each upstream takes as many
consecutive values as its weight. -/
def weightedPick : List Upstream → Nat → Option Upstream
  | [], _ => none
  | u :: us, pos => if pos < max u.weight 1 then some u else weightedPick us (pos - max u.weight 1)

/-- `Iterator::min_by_key`: the first of the elements with the smallest key. -/
def minByKey {α : Type} (key : α → Nat) : List α → Option α
  | [] => none
  | x :: xs => match minByKey key xs with
    | none => some x
    | some y => if key x ≤ key y then some x else some y

/-- `hashIp` stands for the process's hasher, whose function the language does not fix. -/
def selectUpstream (hashIp : IpAddr → Nat) (upstreams : List Upstream) (strategy : LbStrategy)
    (clientIp : IpAddr) (rrCounter : Nat) (inflight : Upstream → Nat) : Option Upstream :=
  if upstreams = [] then none
  else match strategy with
    | .roundRobin => upstreams[rrCounter % upstreams.length]?
    | .ipHash => upstreams[hashIp clientIp % upstreams.length]?
    | .leastConn => minByKey inflight upstreams
    | .weighted =>
      -- every weight counts as at least one, so the total is never zero here
      let total := (upstreams.map fun u => max u.weight 1).sum
      weightedPick upstreams (rrCounter % total) <|> upstreams.getLast?

end Magnetite.Proxy
