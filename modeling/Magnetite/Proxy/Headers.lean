import Magnetite.Lib.Text

/-!
# Headers that cross the proxy

The request copy, the response and the upgrade each build their own list of headers. What a list
says about a name are its values, in order; a header crosses if its values are the same on both
sides.
-/
namespace Magnetite.Proxy

open Magnetite.Lib.Text

/-! ## The three lists -/

/-- Visible ASCII, or something else. -/
inductive HeaderValue where
  | text (s : String)
  | binary (bytes : List UInt8)
deriving DecidableEq

def HeaderValue.toStr : HeaderValue → Option String
  | .text s => some s
  | .binary _ => none

/-- The values of a name, in order. The HTTP library keeps names in lower case. -/
def values {α : Type} (name : String) (headers : List (String × α)) : List α :=
  headers.filterMap fun h => if h.1 = name then some h.2 else none

def isHopByHopHeader (name : String) : Bool :=
  ["connection", "keep-alive", "proxy-connection", "proxy-authenticate", "proxy-authorization",
    "te", "trailer", "trailers", "transfer-encoding", "upgrade"].contains (toAsciiLowercase name)

/-- The headers that the proxy sets itself. -/
def setByProxy : List String :=
  ["host", "x-forwarded-for", "x-real-ip", "x-forwarded-proto", "x-forwarded-host"]

section Lists

variable (headers : List (String × HeaderValue))

/-- The names that a Connection field lists. -/
def listedBy (value : HeaderValue) : List String :=
  match value.toStr with
  | none => []
  | some s =>
    ((s.toList.splitOn ',').map fun t => toAsciiLowercase (trim (.ofList t))).filter (· ≠ "")

/-- The names in the first Connection field. -/
def listed : List String := ((values "connection" headers).head?.map listedBy).getD []

def stripHopByHop : List (String × HeaderValue) :=
  headers.filter fun h =>
    !(isHopByHopHeader (toAsciiLowercase h.1) || (listed headers).contains (toAsciiLowercase h.1))

/-- The cookies of all fields, without those that are empty or not text. -/
def cookies : List String :=
  (((values "cookie" headers).filterMap HeaderValue.toStr).map trim).filter (· ≠ "")

def isUpgrade : Bool :=
  (((values "connection" headers).head?.bind HeaderValue.toStr).map fun s =>
    ((toAsciiLowercase s).toList.splitOn ',').any fun t => trim (.ofList t) == "upgrade").getD
      false &&
  !(values "upgrade" headers).isEmpty

variable (authority : Option String) (peer : String) (secure : Bool)

/-- The host that a request names, in its Host field or else in its target, without the port. -/
def hostOnly : String :=
  beforeFirst ':' ((((values "host" headers).head?.bind HeaderValue.toStr).or authority).getD "")

/-- What the proxy tells the upstream about the request. -/
def forwarded : List (String × String) :=
  [("host", hostOnly headers authority), ("x-real-ip", peer), ("x-forwarded-for", peer),
    ("x-forwarded-proto", if secure then "https" else "http"),
    ("x-forwarded-host", hostOnly headers authority)]

/-- The headers of the request to the upstream. -/
def requestHeaders : List (String × HeaderValue) :=
  (headers.filter fun h => !(setByProxy.contains h.1 || h.1 == "cookie" || isHopByHopHeader h.1)) ++
    (if cookies headers = [] then []
      else [("cookie", .text ("; ".intercalate (cookies headers)))]) ++
    (forwarded headers authority peer secure).map fun h => (h.1, .text h.2)

/-- The lines of the head that is written to the upstream for an upgrade. -/
def upgradeHead : List (String × String) :=
  (headers.filter fun h => !setByProxy.contains h.1).filterMap (fun h => h.2.toStr.map (h.1, ·)) ++
    forwarded headers authority peer secure

/-- The headers that reach the upstream, on either path. -/
def toUpstream : List (String × HeaderValue) :=
  if isUpgrade headers then
    (upgradeHead headers authority peer secure).map fun h => (h.1, .text h.2)
  else requestHeaders headers authority peer secure

/-- Names and values of the lines behind the status line. -/
def parseResponseHead (lines : List String) : List (String × String) :=
  (lines.filter (· ≠ "")).filterMap fun l => (splitOnce ':' l).map fun (k, v) => (trim k, trim v)

/-- The headers of the answer to an upgrade, if the HTTP library takes them. -/
def upgradeResponse (valid : String × String → Bool) (lines : List String) :
    Option (List (String × String)) :=
  if (parseResponseHead lines).all valid then
    some ((parseResponseHead lines).map fun h => (toAsciiLowercase h.1, h.2))
  else none

end Lists

/-! ## Values -/

section Values

variable {α β : Type} (name : String)

@[simp] theorem values_append (a b : List (String × α)) :
    values name (a ++ b) = values name a ++ values name b := List.filterMap_append

/-- A filter on names keeps all values of a name or none. -/
theorem values_filter (keep : String → Bool) (headers : List (String × α)) :
    values name (headers.filter fun h => keep h.1) =
      if keep name then values name headers else [] := by
  unfold values
  rw [List.filterMap_filter]
  split_ifs with hkeep
  · exact List.filterMap_congr fun h _ => by grind
  · exact List.filterMap_eq_nil_iff.mpr fun h _ => by grind

theorem values_filterMap (f : α → Option β) (headers : List (String × α)) :
    values name (headers.filterMap fun h => (f h.2).map (h.1, ·)) =
      (values name headers).filterMap f := by
  unfold values
  rw [List.filterMap_filterMap, List.filterMap_filterMap]
  refine List.filterMap_congr fun h _ => ?_
  by_cases hname : h.1 = name <;> cases hf : f h.2 <;> simp [hname, hf]

theorem values_map (f : α → β) (headers : List (String × α)) :
    values name (headers.map fun h => (h.1, f h.2)) = (values name headers).map f := by
  have h := values_filterMap name (fun v => some (f v)) headers
  simpa only [Option.map_some, List.filterMap_eq_map'] using h

theorem map_text (vs : List HeaderValue) :
    (vs.filterMap HeaderValue.toStr).map .text = vs.filter fun v => v.toStr.isSome := by
  rw [← List.filterMap_eq_filter, List.map_filterMap]
  refine List.filterMap_congr fun v _ => ?_
  cases v <;> rfl

end Values

/-! ## What crosses -/

section Crossing

/-- The headers that describe one hop only. -/
def hopByHop : List String :=
  ["connection", "keep-alive", "proxy-connection", "proxy-authenticate", "proxy-authorization", "te",
    "trailer", "trailers", "transfer-encoding", "upgrade"]

/-- Some Connection field lists the name. -/
def NamedIn (name : String) (headers : List (String × HeaderValue)) : Prop :=
  ∃ value ∈ values "connection" headers, toAsciiLowercase name ∈ listedBy value

/-- A host without its port. -/
def upToColon (host : String) : String := .ofList (host.toList.takeWhile (· ≠ ':'))

variable {headers : List (String × HeaderValue)} {name : String} (authority : Option String)
  (peer : String) (secure : Bool)

theorem isHopByHopHeader_iff : isHopByHopHeader name = true ↔ toAsciiLowercase name ∈ hopByHop := by
  rw [isHopByHopHeader, List.contains_iff_mem, hopByHop]

/-- A name listed in the first Connection field is listed in one. -/
theorem namedIn_of_listed (h : toAsciiLowercase name ∈ listed headers) : NamedIn name headers := by
  rw [listed] at h
  cases hfirst : (values "connection" headers).head? with
  | none => simp [hfirst] at h
  | some value => exact ⟨value, List.mem_of_head? hfirst, by simpa [hfirst] using h⟩

theorem values_forwarded (h : name ∉ setByProxy) :
    values name (forwarded headers authority peer secure) = [] := by
  refine List.filterMap_eq_nil_iff.mpr fun own hown => if_neg ?_
  rintro rfl
  simp only [forwarded, List.mem_cons, List.not_mem_nil, or_false] at hown
  rcases hown with rfl | rfl | rfl | rfl | rfl <;> exact h (by simp [setByProxy])

/-- The part of the list that is copied, and what the proxy adds. -/
theorem values_requestHeaders (name : String) :
    values name (requestHeaders headers authority peer secure) =
      (if setByProxy.contains name || name == "cookie" || isHopByHopHeader name then []
        else values name headers) ++
      (if name = "cookie" ∧ cookies headers ≠ [] then
        [.text ("; ".intercalate (cookies headers))] else []) ++
      (values name (forwarded headers authority peer secure)).map .text := by
  have hcookie (c : HeaderValue) :
      values name (if cookies headers = [] then [] else [("cookie", c)]) =
        if name = "cookie" ∧ cookies headers ≠ [] then [c] else [] := by
    grind [values]
  rw [requestHeaders, values_append, values_append, values_map, hcookie,
    values_filter name fun n => !(setByProxy.contains n || n == "cookie" || isHopByHopHeader n)]
  cases setByProxy.contains name || name == "cookie" || isHopByHopHeader name <;> rfl

theorem values_upgradeHead (name : String) :
    values name (upgradeHead headers authority peer secure) =
      (if setByProxy.contains name then []
        else (values name headers).filterMap HeaderValue.toStr) ++
        values name (forwarded headers authority peer secure) := by
  rw [upgradeHead, values_append, values_filterMap, values_filter name (! setByProxy.contains ·)]
  cases setByProxy.contains name <;> rfl

theorem values_toUpstream_of_mem (h : name ∈ setByProxy) :
    values name (toUpstream headers authority peer secure) =
      (values name (forwarded headers authority peer secure)).map .text := by
  have hc : setByProxy.contains name = true := List.contains_iff_mem.mpr h
  have hcookie : name ≠ "cookie" := by
    rintro rfl
    exact absurd h (by decide)
  rw [toUpstream]
  split
  · rw [values_map, values_upgradeHead, if_pos hc, List.nil_append]
  · rw [values_requestHeaders, hc, Bool.true_or, Bool.true_or, if_pos rfl,
      if_neg fun h => hcookie h.1]
    rfl

theorem values_toUpstream_plain (h : isUpgrade headers = false) (hset : name ∉ setByProxy) :
    values name (toUpstream headers authority peer secure) =
      (if name = "cookie" ∨ isHopByHopHeader name then [] else values name headers) ++
        if name = "cookie" ∧ cookies headers ≠ [] then
          [.text ("; ".intercalate (cookies headers))] else [] := by
  rw [toUpstream, h, if_neg Bool.false_ne_true, values_requestHeaders, values_forwarded _ _ _ hset,
    List.map_nil, List.append_nil]
  simp [hset]

theorem values_stripHopByHop (name : String) : values name (stripHopByHop headers) =
    if isHopByHopHeader name || (listed headers).contains (toAsciiLowercase name) then []
    else values name headers := by
  rw [stripHopByHop, values_filter name fun n => !(isHopByHopHeader (toAsciiLowercase n) ||
    (listed headers).contains (toAsciiLowercase n)), isHopByHopHeader, toAsciiLowercase_idem,
    ← isHopByHopHeader]
  cases isHopByHopHeader name || (listed headers).contains (toAsciiLowercase name) <;> rfl

end Crossing

end Magnetite.Proxy
