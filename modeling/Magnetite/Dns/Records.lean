import Std.Data.ExtTreeMap
import Magnetite.Lib.Text

/-!
# Resource records

A zone's records as they are stored, with type-specific data in JSON, and as they go over the wire,
with the two conversions between the forms. Names and addresses are read and printed by libraries;
what they do with text is a parameter.
-/
namespace Magnetite.Dns

open Magnetite.Lib

inductive RecordType where
  | a | aaaa | cname | mx | txt | ns | ptr | srv | caa
deriving DecidableEq

/-- A member of a JSON object: a text, a number that `as_u64` reads, or something that no reader of
record data takes, by its serialised form. -/
inductive Scalar where
  | text (s : String)
  | number (n : UInt64)
  | other (json : String)
deriving DecidableEq

/-- The type-specific value of a record. -/
abbrev Data := Std.ExtTreeMap String Scalar

/-- A JSON object with the given members. -/
def object (members : List (String × Scalar)) : Data :=
  members.foldr (fun member data => data.insert member.1 member.2) ∅

@[simp] theorem getElem?_object_cons (k : String) (v : Scalar) (members : List (String × Scalar))
    (key : String) :
    (object ((k, v) :: members))[key]? = if k = key then some v else (object members)[key]? := by
  simp only [object, List.foldr_cons, Std.ExtTreeMap.getElem?_insert, Std.compare_eq_iff_eq]

structure Record where
  /-- The key in the table; a record that is not stored has none. -/
  id : Option ℕ
  /-- The zone that owns the record. -/
  zone : String
  name : String
  ttl : UInt32
  recordType : RecordType
  data : Data
  enabled : Bool
deriving DecidableEq

structure Soa where
  mname : String
  rname : String
  serial : UInt32
  refresh : UInt32
  retry : UInt32
  expire : UInt32
  minimum : UInt32
deriving DecidableEq

/-- Lower case, without the closing dot. -/
def normalizeName (name : String) : String :=
  Text.toAsciiLowercase (Text.trimEndMatches '.' (Text.trim name))

/-- How names and addresses are read from text and printed. -/
structure Codec (ν : Type) where
  parseName : String → Option ν
  printName : ν → String
  parseV4 : String → Option (BitVec 32)
  printV4 : BitVec 32 → String
  parseV6 : String → Option (BitVec 128)
  printV6 : BitVec 128 → String

/-- What was read and is printed reads back. -/
structure Codec.Faithful {ν : Type} (c : Codec ν) : Prop where
  name {s : String} {n : ν} : c.parseName s = some n → c.parseName (c.printName n) = some n
  v4 {s : String} {a : BitVec 32} : c.parseV4 s = some a → c.parseV4 (c.printV4 a) = some a
  v6 {s : String} {a : BitVec 128} : c.parseV6 s = some a → c.parseV6 (c.printV6 a) = some a

inductive CaaTag where
  | issue | issuewild | other
deriving DecidableEq

/-- The SOA of a transferred zone. The timers are signed on the wire. -/
structure SoaData (ν : Type) where
  mname : ν
  rname : ν
  serial : UInt32
  refresh : Int32
  retry : Int32
  expire : Int32
  minimum : UInt32
deriving DecidableEq

inductive RData (ν : Type) where
  | a (address : BitVec 32)
  | aaaa (address : BitVec 128)
  | cname (target : ν)
  | ns (nsdname : ν)
  | ptr (ptrdname : ν)
  | mx (preference : UInt16) (exchange : ν)
  | txt (strings : List String)
  | srv (priority weight port : UInt16) (target : ν)
  | caa (flags : UInt8) (tag : CaaTag) (issuer : Option ν)
  | soa (data : SoaData ν)
  /-- DNSSEC and unknown types, by their code. -/
  | other (code : UInt16)
deriving DecidableEq

inductive DnsClass where
  | in | any | none | other
deriving DecidableEq

/-- A resource record on the wire. -/
structure Rr (ν : Type) where
  name : ν
  dnsClass : DnsClass := .in
  ttl : UInt32
  rdata : RData ν
deriving DecidableEq

variable {ν : Type}

def field (data : Data) (key : String) : Option String :=
  match data[key]? with
  | some (.text s) => some s
  | _ => none

def asU64 : Scalar → Option UInt64
  | .number n => some n
  | _ => none

/-- A number, or a text that is one. -/
def asU64Lenient : Scalar → Option UInt64
  | .number n => some n
  | .text s => (Text.parseUnsigned 64 (Text.trim s)).map UInt64.ofNat
  | .other _ => none

def u16Field (data : Data) (key : String) : Option UInt16 :=
  (data[key]?.bind asU64).map (·.toUInt16)

/-- `str::split_whitespace`. -/
def splitWhitespace (s : String) : List String :=
  ((s.toList.splitOnP Text.isWhitespace).filter (· ≠ [])).map String.ofList

/-- The four parts of an SRV value, from its members or from its raw text. -/
def parseSrv (data : Data) : Option (UInt16 × UInt16 × UInt16 × String) :=
  match u16Field data "priority", u16Field data "weight", u16Field data "port",
      field data "target" with
  | some p, some w, some port, some t => some (p, w, port, t)
  | _, _, _, _ => do
    match splitWhitespace (← field data "value") with
    | [p, w, port, t] => do
      let number (s : String) := (Text.parseUnsigned 16 s).map UInt16.ofNat
      return (← number p, ← number w, ← number port, t)
    | _ => none

/-- `splitn` into three parts at white space, absent when there are fewer. -/
def splitThree (s : String) : Option (String × String × String) :=
  let first := s.toList.span (! Text.isWhitespace ·)
  match first.2 with
  | [] => none
  | _ :: rest =>
    let second := rest.span (! Text.isWhitespace ·)
    match second.2 with
    | [] => none
    | _ :: third => some (.ofList first.1, .ofList second.1, .ofList third)

/-- The issuer that a CAA value names before its parameters. -/
def parseIssuer (c : Codec ν) (value : String) : Option ν :=
  let domain := Text.trim (Text.beforeFirst ';' value)
  if domain = "" then none else c.parseName domain

/-- The flags, tag and value of a CAA record, from its members or from its raw text. -/
def caaParts (data : Data) : Option (UInt8 × String × String) :=
  match field data "tag" with
  | some tag =>
    some (((data["flags"]?.bind asU64).getD 0).toUInt8, tag, (field data "value").getD "")
  | none => do
    let (flags, tag, value) ← splitThree (← field data "value")
    return (.ofNat (← Text.parseUnsigned 8 flags), tag, Text.trim value)

/-- The flags that a CAA record is served with: its critical bit. -/
def critical (flags : UInt8) : UInt8 := if flags &&& 0x80 ≠ 0 then 0x80 else 0

@[simp] theorem critical_critical (flags : UInt8) : critical (critical flags) = critical flags := by
  unfold critical
  split_ifs <;> simp_all

/-- Only the tags `issue` and `issuewild` are served. -/
def parseCaaRdata (c : Codec ν) (data : Data) : Option (RData ν) := do
  let (flags, tag, value) ← caaParts data
  let issuer ← parseIssuer c value
  if Text.toAsciiLowercase tag = "issue" then some (.caa (critical flags) .issue (some issuer))
  else if Text.toAsciiLowercase tag = "issuewild" then
    some (.caa (critical flags) .issuewild (some issuer))
  else none

/-- The wire value that the data of a record stands for. -/
def toRdata (c : Codec ν) (recordType : RecordType) (data : Data) : Option (RData ν) :=
  match recordType with
  | .a => do return .a (← c.parseV4 (← field data "address"))
  | .aaaa => do return .aaaa (← c.parseV6 (← field data "address"))
  | .cname => do return .cname (← c.parseName (← field data "target"))
  | .ns => do return .ns (← c.parseName (← field data "nsdname"))
  | .ptr => do return .ptr (← c.parseName (← field data "ptrdname"))
  | .mx => do
    let preference ← data["preference"]?.bind asU64Lenient
    return .mx preference.toUInt16 (← c.parseName (← field data "exchange"))
  | .txt => do return .txt [← field data "text"]
  | .srv => do
    let (priority, weight, port, target) ← parseSrv data
    return .srv priority weight port (← c.parseName target)
  | .caa => parseCaaRdata c data

/-- The resource record of a stored one. -/
def toRr (c : Codec ν) (rec : Record) : Option (Rr ν) := do
  return { name := ← c.parseName rec.name, ttl := rec.ttl,
           rdata := ← toRdata c rec.recordType rec.data }

/-- The stored form of a wire value. The SOA is the boundary of a transfer; DNSSEC and unknown
types are not kept. -/
def fromRdata (c : Codec ν) : RData ν → Option (RecordType × Data)
  | .a address => some (.a, object [("address", .text (c.printV4 address))])
  | .aaaa address => some (.aaaa, object [("address", .text (c.printV6 address))])
  | .cname target => some (.cname, object [("target", .text (c.printName target))])
  | .ns nsdname => some (.ns, object [("nsdname", .text (c.printName nsdname))])
  | .ptr ptrdname => some (.ptr, object [("ptrdname", .text (c.printName ptrdname))])
  | .mx preference exchange => some (.mx, object
      [("preference", .number preference.toUInt64), ("exchange", .text (c.printName exchange))])
  | .txt strings => some (.txt, object [("text", .text (String.join strings))])
  | .srv priority weight port target => some (.srv, object
      [("priority", .number priority.toUInt64), ("weight", .number weight.toUInt64),
       ("port", .number port.toUInt64), ("target", .text (c.printName target))])
  | .caa flags tag issuer => do
    let tag ← match tag with
      | .issue => some "issue"
      | .issuewild => some "issuewild"
      | .other => none
    return (.caa, object [("flags", .number flags.toUInt64), ("tag", .text tag),
      ("value", .text (Text.trimEndMatches '.' (c.printName (← issuer))))])
  | .soa _ => none
  | .other _ => none

/-- A transferred resource record as it is stored. -/
def fromRr (c : Codec ν) (rr : Rr ν) : Option Record := do
  let (recordType, data) ← fromRdata c rr.rdata
  return { id := none, zone := "", name := c.printName rr.name, ttl := rr.ttl, recordType, data,
           enabled := true }

/-- A record that goes over the wire and comes back as one with the same resource record. -/
def Carried (c : Codec ν) (rec : Record) : Prop :=
  ∃ rr, toRr c rec = some rr ∧ ∃ r, fromRr c rr = some r ∧ toRr c r = some rr

/-- The closing dots that a stored CAA issuer loses do not matter to its reader. -/
def IssuerReads (c : Codec ν) : RData ν → Prop
  | .caa _ _ (some issuer) =>
    parseIssuer c (Text.trimEndMatches '.' (c.printName issuer)) = some issuer
  | _ => True

theorem parseCaaRdata_fromRdata {c : Codec ν} {data : Data} {rdata : RData ν}
    (h : parseCaaRdata c data = some rdata) (hi : IssuerReads c rdata) :
    ∃ d, fromRdata c rdata = some (.caa, d) ∧ parseCaaRdata c d = some rdata := by
  obtain ⟨⟨flags, tag, value⟩, -, h⟩ := Option.bind_eq_some_iff.mp h
  obtain ⟨issuer, -, h⟩ := Option.bind_eq_some_iff.mp h
  have issue : Text.toAsciiLowercase "issue" = "issue" := by decide
  have issuewild : Text.toAsciiLowercase "issuewild" = "issuewild" := by decide
  split_ifs at h
  all_goals
    cases h
    rw [IssuerReads] at hi
    exact ⟨_, rfl, by simp [parseCaaRdata, caaParts, field, asU64, hi, issue, issuewild]⟩

/-- The stored form of a value that was read from a record stands for the same value. -/
theorem toRdata_fromRdata {c : Codec ν} (hc : c.Faithful) {recordType : RecordType} {data : Data}
    {rdata : RData ν} (h : toRdata c recordType data = some rdata) (hi : IssuerReads c rdata) :
    ∃ d, fromRdata c rdata = some (recordType, d) ∧ toRdata c recordType d = some rdata := by
  cases recordType with
  | caa => exact parseCaaRdata_fromRdata h hi
  | srv =>
    obtain ⟨⟨p, w, port, t⟩, -, h⟩ := Option.bind_eq_some_iff.mp h
    obtain ⟨target, ht, h⟩ := Option.bind_eq_some_iff.mp h
    cases h
    exact ⟨_, rfl, by simp [toRdata, parseSrv, u16Field, field, asU64, hc.name ht]⟩
  | mx =>
    obtain ⟨preference, -, h⟩ := Option.bind_eq_some_iff.mp h
    obtain ⟨e, -, h⟩ := Option.bind_eq_some_iff.mp h
    obtain ⟨exchange, he, h⟩ := Option.bind_eq_some_iff.mp h
    cases h
    generalize preference.toUInt16 = p
    exact ⟨_, rfl, by simp [toRdata, field, asU64Lenient, hc.name he]⟩
  | txt =>
    obtain ⟨text, -, h⟩ := Option.bind_eq_some_iff.mp h
    cases h
    exact ⟨_, rfl, by simp [toRdata, field, String.join]⟩
  | a =>
    obtain ⟨text, -, h⟩ := Option.bind_eq_some_iff.mp h
    obtain ⟨address, ha, h⟩ := Option.bind_eq_some_iff.mp h
    cases h
    exact ⟨_, rfl, by simp [toRdata, field, hc.v4 ha]⟩
  | aaaa =>
    obtain ⟨text, -, h⟩ := Option.bind_eq_some_iff.mp h
    obtain ⟨address, ha, h⟩ := Option.bind_eq_some_iff.mp h
    cases h
    exact ⟨_, rfl, by simp [toRdata, field, hc.v6 ha]⟩
  | cname | ns | ptr =>
    obtain ⟨text, -, h⟩ := Option.bind_eq_some_iff.mp h
    obtain ⟨name, hn, h⟩ := Option.bind_eq_some_iff.mp h
    cases h
    exact ⟨_, rfl, by simp [toRdata, field, hc.name hn]⟩

/-- With faithful libraries every record that has a resource record is carried by the wire. -/
theorem carried {c : Codec ν} (hc : c.Faithful) {rec : Record} {rr : Rr ν}
    (h : toRr c rec = some rr) (hi : IssuerReads c rr.rdata) : Carried c rec := by
  obtain ⟨name, hn, h'⟩ := Option.bind_eq_some_iff.mp h
  obtain ⟨rdata, hr, h'⟩ := Option.bind_eq_some_iff.mp h'
  cases h'
  obtain ⟨d, hd, ht⟩ := toRdata_fromRdata hc hr hi
  exact ⟨_, h, _, by rw [fromRr, hd]; rfl, by simp [toRr, hc.name hn, ht]⟩

end Magnetite.Dns
