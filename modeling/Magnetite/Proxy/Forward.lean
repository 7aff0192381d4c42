import Magnetite.Proxy.Router

/-!
# The forward proxy

Clients send it requests for other servers. Three gates stand before each: on the client's address,
on its credentials and on the requested host. A host that the last gate denies can still be reached
under its other spelling, and be named in the header that is passed on.
-/
namespace Magnetite.Proxy
open Lib Text Net

/-! ## Rules -/

inductive ForwardRuleKind where
  | source | destination
  deriving DecidableEq, Repr

structure ForwardRule where
  kind : ForwardRuleKind
  matcher : String
  action : AclAction
  priority : Int
  enabled : Bool
  deriving DecidableEq, Repr

/-- The enabled rules of a kind by ascending priority, the first match decides; the default is to
allow. -/
def forwardDecision (kind : ForwardRuleKind) (hits : ForwardRule → Bool) (rules : List ForwardRule) :
    AclAction :=
  let applicable := rules.filter fun r => r.enabled && r.kind == kind
  (((sortByKey (·.priority) applicable).find? hits).map (·.action)).getD .allow

def forwardSourceDecision (rules : List ForwardRule) (ip : IpAddr) : AclAction :=
  forwardDecision .source (fun r => cidrContains r.matcher ip) rules

/-- A matcher with a dot in front stands for the domain and everything below it. -/
def hostMatches (matcher host : String) : Bool :=
  let m := toAsciiLowercase (trim matcher)
  let h := toAsciiLowercase (trim host)
  if m = "*" ∨ m = "." then true
  else match stripPrefix m "." with
    | some dom => h == dom || endsWith h ("." ++ dom)
    | none => h == m

def forwardDestDecision (rules : List ForwardRule) (host : String) : AclAction :=
  forwardDecision .destination (fun r => hostMatches r.matcher host) rules

/-! ## Requests -/

/-- The host of a `host:port` text. An IPv6 address stands in brackets. -/
def hostPart (text : String) : String :=
  if text.toList.head? = some '[' then .ofList (text.toList.takeWhile (· ≠ ']') ++ [']'])
  else beforeFirst ':' text

/-- The host of a request target, as the HTTP library accepts one. -/
structure Authority where
  host : String
  port : Option Nat
  framed : if host.toList.head? = some '[' then ∃ cs, ']' ∉ cs ∧ host.toList = cs ++ [']']
    else ':' ∉ host.toList

/-- `authority` is absent in requests that are not meant for a proxy. -/
structure Uri where
  authority : Option Authority
  pathAndQuery : Option String

inductive Method where
  | connect
  | other (name : String)
  deriving DecidableEq, Repr

/-- The names of headers are in small letters, as the HTTP library gives them. -/
structure ForwardRequest where
  method : Method
  uri : Uri
  headers : List (String × String)

/-- The server that is contacted, with what it is sent first. -/
inductive Contact where
  | tunnel (host : String) (port : Nat)
  | fetch (host : String) (port : Nat) (request : ForwardRequest)

inductive ForwardReply where
  | status (code : Nat) (message : String)
  | proxyAuthRequired
  | established
  | relayed (code : Nat)
  deriving DecidableEq, Repr

structure Forwarding where
  reply : ForwardReply
  contact : Option Contact

/-- What the store answers, how credentials are decoded, whether the body stays within the limit
and the request can be built again, and the status that the other server answers with. -/
structure ForwardCtx where
  rules : Option (List ForwardRule)
  hasEnabledUsers : Option Bool
  verifyUser : String → String → Bool
  decodeBasic : String → Option String
  bodyFits : Bool
  rebuilds : Bool
  upstream : Option Nat

def refuse (code : Nat) (message : String) : Forwarding := ⟨.status code message, none⟩

def isHopByHop (name : String) : Bool :=
  ["proxy-authorization", "proxy-connection", "connection", "keep-alive", "te", "trailer",
    "transfer-encoding", "upgrade"].contains (toAsciiLowercase name)

def parseProxyAuth (ctx : ForwardCtx) (headers : List (String × String)) :
    Option (String × String) := do
  let raw ← headers.lookup "proxy-authorization"
  let b64 ← stripPrefix raw "Basic " <|> stripPrefix raw "basic "
  splitOnce ':' (← ctx.decodeBasic (trim b64))

def forwardConnect (rules : List ForwardRule) (req : ForwardRequest) : Forwarding :=
  match req.uri.authority with
  | none => refuse 400 "CONNECT の宛先が不正です。"
  | some authority =>
    if forwardDestDecision rules authority.host = .deny then refuse 403 "宛先が拒否されました。"
    else ⟨.established, some (.tunnel authority.host (authority.port.getD 443))⟩

/-- The HTTP client adds the host of the target if there is no such header. -/
def withHostHeader (authority : Authority) (headers : List (String × String)) :
    List (String × String) :=
  if headers.any (·.1 == "host") then headers
  else headers ++ [("host", match authority.port.filter (· ≠ 80) with
    | some port => authority.host ++ ":" ++ toString port
    | none => authority.host)]

def forwardHttp (ctx : ForwardCtx) (rules : List ForwardRule) (req : ForwardRequest) : Forwarding :=
  match req.uri.authority with
  | none => refuse 400 "絶対URIのリクエストのみ転送できます。"
  | some authority =>
    if authority.host = "" then refuse 400 "絶対URIのリクエストのみ転送できます。"
    else if forwardDestDecision rules authority.host = .deny then
      refuse 403 "宛先が拒否されました。"
    else if !ctx.bodyFits then refuse 413 "リクエストボディが大きすぎます。"
    else if !ctx.rebuilds then refuse 502 "リクエストの再構築に失敗しました。"
    else
      -- the client's own `Host` is not among the headers that are left out
      let headers := withHostHeader authority (req.headers.filter (!isHopByHop ·.1))
      ⟨match ctx.upstream with
        | some code => .relayed code
        | none => .status 502 "上流への接続に失敗しました。",
        some (.fetch authority.host (authority.port.getD 80) { req with headers })⟩

def forwardHandle (ctx : ForwardCtx) (peer : IpAddr) (req : ForwardRequest) : Forwarding :=
  match ctx.rules with
  | none => refuse 502 "設定の読み込みに失敗しました。"
  | some rules =>
    if forwardSourceDecision rules peer = .deny then refuse 403 "アクセスが拒否されました。"
    else match ctx.hasEnabledUsers with
      | none => refuse 502 "認証情報の確認に失敗しました。"
      | some users =>
        let ok := (parseProxyAuth ctx req.headers).any fun (user, pass) => ctx.verifyUser user pass
        if users && !ok then ⟨.proxyAuthRequired, none⟩
        else match req.method with
          | .connect => forwardConnect rules req
          | .other _ => forwardHttp ctx rules req

/-! ## Spellings of a name -/

section Spelling

/-- Two spellings of one name, in letter case and in a dot at the end. -/
def SameName (a b : String) : Prop :=
  toAsciiLowercase a = toAsciiLowercase b ∨ toAsciiLowercase a = toAsciiLowercase (b ++ ".") ∨
    toAsciiLowercase (a ++ ".") = toAsciiLowercase b

variable {rules : List ForwardRule}

/-- Letter case does not matter to the rules. -/
theorem forwardDestDecision_lower (host : String) :
    forwardDestDecision rules (toAsciiLowercase host) = forwardDestDecision rules host := by
  have htrim : toAsciiLowercase (trim (toAsciiLowercase host)) = toAsciiLowercase (trim host) := by
    simp only [trim, toAsciiLowercase, String.toList_ofList, trimChars_map_toLower,
      List.map_map]
    exact congrArg String.ofList (List.map_congr_left fun c _ => toLower_toLower c)
  simp only [forwardDestDecision, hostMatches, htrim]

theorem forwardDestDecision_congr {a b : String} (h : toAsciiLowercase a = toAsciiLowercase b) :
    forwardDestDecision rules a = forwardDestDecision rules b := by
  rw [← forwardDestDecision_lower a, h, forwardDestDecision_lower]

/-- The rules deny no spelling of a name: not this one, not that with another dot, and not that
without its dot. -/
def Clear (rules : List ForwardRule) (host : String) : Prop :=
  forwardDestDecision rules host ≠ .deny ∧ forwardDestDecision rules (host ++ ".") ≠ .deny ∧
    ∀ p, host = p ++ "." → forwardDestDecision rules p ≠ .deny

/-- The dot at the end of a spelling is there in every letter case. -/
theorem of_lower_eq_dotted {a b : String} (h : toAsciiLowercase a = toAsciiLowercase (b ++ ".")) :
    ∃ p, a = p ++ "." ∧ toAsciiLowercase p = toAsciiLowercase b := by
  have hlist : a.toList.map Char.toLower = b.toList.map Char.toLower ++ ['.'] := by
    simpa [toAsciiLowercase] using congrArg String.toList h
  obtain ⟨cs, ds, hcs, hinit, hlast⟩ := List.map_eq_append_iff.mp hlist
  obtain ⟨c, hds, hc⟩ := List.map_eq_singleton_iff.mp hlast
  obtain rfl : c = '.' := by simpa [hc] using toLower_beq_dot c
  refine ⟨.ofList cs, String.toList_inj.mp ?_, ?_⟩
  · simp [hcs, hds]
  · rw [toAsciiLowercase, String.toList_ofList, hinit]
    rfl

theorem clear_iff {host : String} :
    Clear rules host ↔ ∀ d, forwardDestDecision rules d = .deny → ¬ SameName host d := by
  constructor
  · rintro ⟨hsame, hmore, hless⟩ d hdeny (h | h | h)
    · rw [forwardDestDecision_congr h] at hsame
      exact hsame hdeny
    · obtain ⟨p, hp, hlower⟩ := of_lower_eq_dotted h
      refine hless p hp ?_
      rw [forwardDestDecision_congr hlower, hdeny]
    · rw [forwardDestDecision_congr h] at hmore
      exact hmore hdeny
  · intro h
    refine ⟨fun hdeny => h _ hdeny (.inl rfl), fun hdeny => h _ hdeny (.inr (.inr rfl)), ?_⟩
    rintro p rfl hdeny
    exact h _ hdeny (.inr (.inl rfl))

end Spelling

/-! ## What the destination gate keeps back -/

section Gate

theorem hostPart_host (a : Authority) {rest : List Char} (hrest : ∀ c ∈ rest.head?, c = ':') :
    hostPart (a.host ++ .ofList rest) = a.host := by
  have hframed := a.framed
  apply String.toList_inj.mp
  unfold hostPart
  split_ifs at hframed with hopen
  · obtain ⟨cs, hcs, hhost⟩ := hframed
    have hhead : (a.host ++ .ofList rest).toList.head? = some '[' := by
      rw [String.toList_append, List.head?_append, hopen]
      rfl
    have hnot : ∀ c ∈ cs, decide (c ≠ ']') = true := fun c hc => by
      simpa using fun h : c = ']' => hcs (h ▸ hc)
    rw [if_pos hhead, String.toList_ofList, String.toList_append, hhost, List.append_assoc,
      List.takeWhile_append_of_pos hnot]
    simp
  · have hhead : ¬ (a.host ++ .ofList rest).toList.head? = some '[' := by
      rw [String.toList_append, List.head?_append, String.toList_ofList]
      cases hh : a.host.toList.head? with
      | some c => simpa [hh] using hopen
      | none =>
        intro h
        exact absurd (hrest '[' (by simpa using h)) (by decide)
    have hnot : ∀ c ∈ a.host.toList, decide (c ≠ ':') = true := fun c hc => by
      simpa using fun h : c = ':' => hframed (h ▸ hc)
    have hrest' : rest.takeWhile (· ≠ ':') = [] := by
      cases rest with
      | nil => rfl
      | cons c cs => simp [hrest c rfl]
    rw [if_neg hhead, beforeFirst, String.toList_ofList, String.toList_append,
      String.toList_ofList, List.takeWhile_append_of_pos hnot, hrest', List.append_nil]

def Contact.host : Contact → String
  | .tunnel host _ => host
  | .fetch host _ _ => host

/-- The hosts that the headers of a request name. -/
def ForwardRequest.namedHosts (req : ForwardRequest) : List String :=
  (req.headers.filter (·.1 == "host")).map fun h => hostPart h.2

def Contact.namedHosts : Contact → List String
  | .tunnel _ _ => []
  | .fetch _ _ request => request.namedHosts

/-- No host that the rules deny is contacted, and no request that is passed on names one. -/
def Withheld (rules : List ForwardRule) (out : Forwarding) : Prop :=
  ∀ d, forwardDestDecision rules d = .deny → ∀ c ∈ out.contact,
    ¬ SameName c.host d ∧ ∀ h ∈ c.namedHosts, ¬ SameName h d

theorem withheld_refuse {rules : List ForwardRule} (code : Nat) (message : String) :
    Withheld rules (refuse code message) := nofun

theorem withheld_iff {rules : List ForwardRule} {reply : ForwardReply} {c : Contact} :
    Withheld rules ⟨reply, some c⟩ ↔ Clear rules c.host ∧ ∀ h ∈ c.namedHosts, Clear rules h := by
  simp only [clear_iff, Withheld, Option.mem_some_iff, forall_eq']
  grind

/-- The request that is sent for another one. -/
def ForwardRequest.toServer (req : ForwardRequest) (a : Authority) : ForwardRequest :=
  { req with headers := withHostHeader a (req.headers.filter (!isHopByHop ·.1)) }

/-- It names the hosts that the client has written, or else the one that is contacted. -/
theorem namedHosts_toServer (req : ForwardRequest) (a : Authority) :
    (req.toServer a).namedHosts = if req.namedHosts = [] then [a.host] else req.namedHosts := by
  have hkept : (req.headers.filter (!isHopByHop ·.1)).filter (·.1 == "host") =
      req.headers.filter (·.1 == "host") := by
    rw [List.filter_filter]
    refine List.filter_congr fun h _ => ?_
    by_cases hname : h.1 = "host"
    · rw [hname]
      decide
    · simp [hname]
  unfold ForwardRequest.namedHosts ForwardRequest.toServer withHostHeader
  dsimp only
  split_ifs with hany hnil hnil
  · -- a header that is left is one that the client has written
    obtain ⟨h, hh, hname⟩ := List.any_eq_true.mp hany
    have hmem := hkept ▸ List.mem_filter.mpr ⟨hh, hname⟩
    rw [List.map_eq_nil_iff.mp hnil] at hmem
    exact absurd hmem (by simp)
  · rw [hkept]
  · rw [List.filter_append, hkept, List.map_append, hnil]
    simp only [beq_self_eq_true, List.filter_cons_of_pos, List.filter_nil, List.map_cons,
      List.map_nil, List.nil_append, List.cons.injEq, and_true]
    split
    · next port _ =>
      have hport := @hostPart_host a (":" ++ toString port).toList (by simp)
      rwa [String.ofList_toList, ← String.append_assoc] at hport
    · simpa using @hostPart_host a [] (by simp)
  · rw [← hkept] at hnil
    refine absurd (List.map_eq_nil_iff.mpr (List.filter_eq_nil_iff.mpr fun h hh => ?_)) hnil
    simpa using fun hname : h.1 = "host" => hany (List.any_eq_true.mpr ⟨h, hh, by simpa using hname⟩)

theorem withheld_connect {rules : List ForwardRule} {req : ForwardRequest} :
    Withheld rules (forwardConnect rules req) ↔ ∀ a, req.uri.authority = some a →
      forwardDestDecision rules a.host ≠ .deny → Clear rules a.host := by
  unfold forwardConnect
  cases req.uri.authority with
  | none => simpa using withheld_refuse _ _
  | some a =>
    dsimp only
    split_ifs with hdest
    · simpa [hdest] using withheld_refuse _ _
    · simp [withheld_iff, hdest, Contact.host, Contact.namedHosts]

/-- The body and the building of the request can only keep more back. -/
theorem withheld_http {ctx : ForwardCtx} {rules : List ForwardRule} {req : ForwardRequest} :
    Withheld rules (forwardHttp ctx rules req) ↔ (ctx.bodyFits = true → ctx.rebuilds = true →
      ∀ a, req.uri.authority = some a → forwardDestDecision rules a.host ≠ .deny → a.host ≠ "" →
        Clear rules a.host ∧ ∀ h ∈ req.namedHosts, Clear rules h) := by
  unfold forwardHttp
  cases req.uri.authority with
  | none => simpa using withheld_refuse _ _
  | some a =>
    dsimp only
    split_ifs with hhost hdest hbody hbuild
    · simpa [hhost] using withheld_refuse _ _
    · simpa [hdest] using withheld_refuse _ _
    · simpa [show ctx.bodyFits = false by simpa using hbody] using withheld_refuse _ _
    · simpa [show ctx.rebuilds = false by simpa using hbuild] using withheld_refuse _ _
    · have hfits : ctx.bodyFits = true := by simpa using hbody
      have hbuilds : ctx.rebuilds = true := by simpa using hbuild
      have hnamed := namedHosts_toServer req a
      rw [withheld_iff]
      unfold Contact.host Contact.namedHosts
      change Clear rules a.host ∧ (∀ h ∈ (req.toServer a).namedHosts, Clear rules h) ↔ _
      rw [hnamed]
      split_ifs with hnil
      · simp [hnil, hdest, hhost, hfits, hbuilds]
      · simp [hdest, hhost, hfits, hbuilds]

/-- A context in which nothing but the rules can stop a request. -/
def openCtx (rules : List ForwardRule) : ForwardCtx where
  rules := some rules
  hasEnabledUsers := some false
  verifyUser _ _ := false
  decodeBasic _ := none
  bodyFits := true
  rebuilds := true
  upstream := some 200

/-- The denied hosts stay out of reach exactly if a request that passes is for a host whose
spellings are all allowed, and its own `Host` headers name no other. -/
theorem withheld_handle_iff (rules : List ForwardRule) (peer : IpAddr) (req : ForwardRequest) :
    (∀ ctx : ForwardCtx, ctx.rules = some rules → Withheld rules (forwardHandle ctx peer req)) ↔
      (forwardSourceDecision rules peer ≠ .deny → ∀ a, req.uri.authority = some a →
        forwardDestDecision rules a.host ≠ .deny → (req.method ≠ .connect → a.host ≠ "") →
        Clear rules a.host ∧ (req.method ≠ .connect → ∀ h ∈ req.namedHosts, Clear rules h)) := by
  constructor
  · intro h hsource a ha hdest hhost
    have hopen := h (openCtx rules) rfl
    simp only [forwardHandle, openCtx, if_neg hsource, Bool.false_and, Bool.false_eq_true,
      if_false] at hopen
    cases hm : req.method with
    | connect =>
      rw [hm] at hopen
      exact ⟨withheld_connect.mp hopen a ha hdest, fun hne => absurd rfl hne⟩
    | other name =>
      rw [hm] at hopen hhost
      obtain ⟨hclear, hnamed⟩ := withheld_http.mp hopen rfl rfl a ha hdest (hhost nofun)
      exact ⟨hclear, fun _ => hnamed⟩
  · intro h ctx hrules
    simp only [forwardHandle, hrules]
    split_ifs with hsource
    · exact withheld_refuse _ _
    · cases ctx.hasEnabledUsers with
      | none => exact withheld_refuse _ _
      | some users =>
        dsimp only
        split_ifs
        · exact nofun
        · cases hm : req.method with
          | connect =>
            rw [hm] at h
            exact withheld_connect.mpr fun a ha hdest =>
              (h hsource a ha hdest fun hne => absurd rfl hne).1
          | other name =>
            rw [hm] at h
            refine withheld_http.mpr fun _ _ a ha hdest hhost => ?_
            obtain ⟨hclear, hnamed⟩ := h hsource a ha hdest fun _ => hhost
            exact ⟨hclear, hnamed nofun⟩

end Gate

section Sample

/-- One host is denied. -/
def denyExample : List ForwardRule := [⟨.destination, "example.com", .deny, 10, true⟩]

def toHost (host : String) (h : ':' ∉ host.toList ∧ host.toList.head? ≠ some '[') : Authority where
  host
  port := none
  framed := by
    rw [if_neg h.2]
    exact h.1

/-- A tunnel to the denied host with a dot at the end. -/
def dottedConnect : ForwardRequest :=
  ⟨.connect, ⟨some (toHost "Example.com." (by decide)), none⟩, []⟩

/-- A request for another host that carries the denied one in its own header. -/
def foreignHost : ForwardRequest :=
  ⟨.other "GET", ⟨some (toHost "mirror.test" (by decide)), some "/"⟩, [("host", "example.com")]⟩

theorem denied_host_reached :
    forwardDestDecision denyExample "example.com" = .deny ∧
      ¬ Withheld denyExample (forwardHandle (openCtx denyExample) (.v4 0x0a000001#32) dottedConnect) ∧
      ¬ Withheld denyExample (forwardHandle (openCtx denyExample) (.v4 0x0a000001#32)
        foreignHost) := by
  have hdeny : forwardDestDecision denyExample "example.com" = .deny := by decide +kernel
  refine ⟨hdeny, fun h => ?_, fun h => ?_⟩
  · exact (h _ hdeny (.tunnel "Example.com." 443) rfl).1 (.inr (.inl (by decide +kernel)))
  · refine (h _ hdeny (.fetch "mirror.test" 80 foreignHost) rfl).2 "example.com" ?_ (.inl rfl)
    decide +kernel

end Sample

end Magnetite.Proxy
