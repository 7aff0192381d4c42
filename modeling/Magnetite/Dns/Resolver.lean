import Magnetite.Dns.Names
import Magnetite.Dns.Store

/-!
# Authoritative answers

A question is answered from the zones and the response policy as they were loaded. The policy comes
first; otherwise the most specific zone that the name is in has the answer: the records at the name,
those of a wildcard, or a negative answer with the SOA of the zone.
-/
namespace Magnetite.Dns.Resolver

open Magnetite.Lib

structure ZoneData where
  zone : Zone
  records : List Record

inductive RpzAction where
  | nxdomain | nodata | drop | redirect
deriving DecidableEq

structure RpzRule where
  domain : String
  action : RpzAction
  redirectTo : Option String
  enabled : Bool

structure Snapshot where
  zones : List ZoneData
  rpz : List RpzRule

inductive QueryType where
  | record (rt : RecordType)
  | soa
  | any
  | other
deriving DecidableEq

inductive Rcode where
  | noError | nxDomain | refused
deriving DecidableEq

structure Resolution where
  rcode : Rcode
  authoritative : Bool
  drop : Bool
  fromRpz : Bool
  answers : List Record
  soaAnswer : Option (String × Soa)
  authoritySoa : Option (String × Soa)
deriving DecidableEq

namespace Resolution

def base : Resolution := ⟨.noError, false, false, false, [], none, none⟩

def refused : Resolution := { base with rcode := .refused }

def dropped : Resolution := { base with drop := true }

def ofAnswers (answers : List Record) : Resolution := { base with authoritative := true, answers }

def negative (rcode : Rcode) (apex : String) (soa : Soa) : Resolution :=
  { base with rcode, authoritative := true, authoritySoa := some (apex, soa) }

end Resolution

/-- `Iterator::max_by_key`: the last of the greatest elements. -/
def maxByKey {α : Type} (key : α → ℕ) (l : List α) : Option α :=
  l.foldl (fun best x =>
    match best with
    | none => some x
    | some b => if key b ≤ key x then some x else some b) none

/-- The most specific enabled zone that the name is in. -/
def findZone (zones : List ZoneData) (qname : String) : Option ZoneData :=
  maxByKey (fun z => (normalizeName z.zone.name).utf8ByteSize)
    ((zones.filter (·.zone.enabled)).filter fun z =>
      let apex := normalizeName z.zone.name
      qname == apex || Text.endsWith qname ("." ++ apex))

/-- The enabled records of the name. -/
def recordsAt (zd : ZoneData) (name : String) : List Record :=
  zd.records.filter fun r => r.enabled && normalizeName r.name == name

/-- What stands below the asterisk, if the name matches. -/
def wildcardBase (qname owner : String) : Option String :=
  (Text.stripPrefix owner "*.").filter fun base => Text.endsWith qname ("." ++ base)

/-- The owner with the longest base so far. -/
def better (qname : String) (best : Option (ℕ × String)) (r : Record) : Option (ℕ × String) :=
  if ! r.enabled then best else
    match wildcardBase qname (normalizeName r.name) with
    | none => best
    | some base =>
      if best.all (·.1 < base.utf8ByteSize) then some (base.utf8ByteSize, normalizeName r.name)
      else best

/-- The records of the wildcard with the longest base, as records of the name. -/
def wildcardAt (zd : ZoneData) (qname : String) : Option (List Record) := do
  let (_, wildcardOwner) ← zd.records.foldl (better qname) none
  let records := (recordsAt zd wildcardOwner).map fun r => { r with name := qname }
  if records.isEmpty then none else some records

/-- The records that a CNAME leads to, with a bound on the steps left. -/
def chaseCname (zones : List ZoneData) (rt : RecordType) : ℕ → Record → List Record
  | 0, _ => []
  | steps + 1, cname =>
    match field cname.data "target" with
    | none => []
    | some target =>
      let tname := normalizeName target
      match findZone zones tname with
      | none => []
      | some zd =>
        let at' := recordsAt zd tname
        match at'.find? (·.recordType == .cname) with
        | some next => next :: chaseCname zones rt steps next
        | none => at'.filter (·.recordType == rt)

def chaseLimit : ℕ := 8

/-- The answer from the records at a name. -/
def answerAt (snapshot : Snapshot) (records : List Record) (rt : RecordType) (apex : String)
    (soa : Soa) : Resolution :=
  let exact := records.filter (·.recordType == rt)
  if ! exact.isEmpty then .ofAnswers exact
  else if rt != .cname then
    match records.find? (·.recordType == .cname) with
    | some cname => .ofAnswers (cname :: chaseCname snapshot.zones rt chaseLimit cname)
    | none => .negative .noError apex soa
  else .negative .noError apex soa

/-- There is an answer, or there is neither a record of the type nor a CNAME. -/
theorem answerAt_cases (snapshot : Snapshot) (records : List Record) (rt : RecordType) (apex : String)
    (soa : Soa) :
    (answerAt snapshot records rt apex soa = .negative .noError apex soa ∧
      ∀ r ∈ records, r.recordType ≠ rt) ∨
    ∃ answers, answers ≠ [] ∧ answerAt snapshot records rt apex soa = .ofAnswers answers := by
  unfold answerAt
  dsimp only
  split
  case isTrue h => exact .inr ⟨_, by simpa [List.isEmpty_iff] using h, rfl⟩
  case isFalse h =>
    have hnone : ∀ r ∈ records, r.recordType ≠ rt := by simpa [List.filter_eq_nil_iff] using h
    split
    · split
      · exact .inr ⟨_, List.cons_ne_nil _ _, rfl⟩
      · exact .inl ⟨rfl, hnone⟩
    · exact .inl ⟨rfl, hnone⟩

/-! ### Response policy -/

def rpzMatches (qname pattern : String) : Bool :=
  let pattern := normalizeName pattern
  match Text.stripPrefix pattern "*." with
  | some suffix => qname == suffix || Text.endsWith qname ("." ++ suffix)
  | none => qname == pattern

/-- `trim_start_matches("*.")`. -/
def trimAsterisks : List Char → List Char
  | '*' :: '.' :: cs => trimAsterisks cs
  | cs => cs

def rpzAction (rules : List RpzRule) (qname : String) : Option (RpzAction × Option String) :=
  (maxByKey (fun r => (String.ofList (trimAsterisks (normalizeName r.domain).toList)).utf8ByteSize)
    (rules.filter fun r => r.enabled && rpzMatches qname r.domain)).map fun r =>
      (r.action, r.redirectTo)

def synthCname (qname target : String) : Record where
  id := none
  zone := ""
  name := qname
  ttl := 60
  recordType := .cname
  data := object [("target", .text (normalizeName target))]
  enabled := true

def applyRpzInner (snapshot : Snapshot) (qname : String) (qtype : QueryType) (action : RpzAction)
    (redirectTo : Option String) : Resolution :=
  match action with
  | .nxdomain => { Resolution.base with rcode := .nxDomain }
  | .nodata => .base
  | .drop => .dropped
  | .redirect =>
    match redirectTo.filter fun t => Text.trim t != "" with
    | none => { Resolution.base with rcode := .nxDomain }
    | some target =>
      let cname := synthCname qname target
      let chased := match qtype with
        | .record rt => if rt != .cname then chaseCname snapshot.zones rt chaseLimit cname else []
        | _ => []
      { Resolution.base with answers := cname :: chased }

def applyRpz (snapshot : Snapshot) (qname : String) (qtype : QueryType) (action : RpzAction)
    (redirectTo : Option String) : Resolution :=
  { applyRpzInner snapshot qname qtype action redirectTo with fromRpz := true }

/-! ### Resolution -/

/-- The answer from the records of a wildcard. -/
def wildcardAnswer (snapshot : Snapshot) (records : List Record) (qtype : QueryType) (apex : String)
    (soa : Soa) : Resolution :=
  match qtype with
  | .record rt => answerAt snapshot records rt apex soa
  | .any => .ofAnswers records
  | _ => .negative .noError apex soa

/-- The answer from the records at a name that exists. -/
def existingAnswer (snapshot : Snapshot) (records : List Record) (qname : String) (qtype : QueryType)
    (apex : String) (soa : Soa) : Resolution :=
  match qtype with
  | .soa | .other => .negative .noError apex soa
  | .any =>
    { Resolution.ofAnswers records with
      soaAnswer := if qname == apex then some (apex, soa) else none }
  | .record rt => answerAt snapshot records rt apex soa

/-- The answer from a zone that the name is in. -/
def resolveInZone (snapshot : Snapshot) (zd : ZoneData) (qname : String) (qtype : QueryType) :
    Resolution :=
  let apex := normalizeName zd.zone.name
  let soa := zd.zone.soa
  if qtype == .soa && qname == apex then
    { Resolution.base with authoritative := true, soaAnswer := some (apex, soa) }
  else
    let at' := recordsAt zd qname
    if qname != apex && at'.isEmpty then
      match wildcardAt zd qname with
      | some records => wildcardAnswer snapshot records qtype apex soa
      | none => .negative .nxDomain apex soa
    else existingAnswer snapshot at' qname qtype apex soa

def resolveIn (snapshot : Snapshot) (qnameRaw : String) (qtype : QueryType) : Resolution :=
  let qname := normalizeName qnameRaw
  match rpzAction snapshot.rpz qname with
  | some (action, redirectTo) => applyRpz snapshot qname qtype action redirectTo
  | none =>
    match findZone snapshot.zones qname with
    | none => .refused
    | some zd => resolveInZone snapshot zd qname qtype

end Magnetite.Dns.Resolver
