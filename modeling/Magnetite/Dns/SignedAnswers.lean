import Mathlib.Data.List.Basic
import Mathlib.Data.List.Induction
import Mathlib.Data.List.Nodup
import Magnetite.Dns.Resolver
import Magnetite.Dns.Transfer
import Magnetite.Dns.Wildcard

/-!
# What is answered

The records that a query is answered with, as a relation on the zones.
-/
namespace Magnetite.Dns.Signing

open Lib Resolver

/-! ## What is served -/

/-- The first CNAME record at a name. -/
def AliasAt (zones : List ZoneData) (name : String) (r : Record) : Prop :=
  ∃ zd, findZone zones name = some zd ∧ (recordsAt zd name).find? (·.recordType == .cname) = some r

/-- The name that a record leads to. -/
def LeadsTo (r : Record) (name : String) : Prop :=
  ∃ target, field r.data "target" = some target ∧ normalizeName target = name

/-- The records behind a CNAME, over at most so many names. -/
inductive Behind (zones : List ZoneData) (rt : RecordType) : ℕ → Record → Record → Prop
  | next {n : ℕ} {cname next : Record} {name : String} (leads : LeadsTo cname name)
      (at_ : AliasAt zones name next) : Behind zones rt (n + 1) cname next
  | further {n : ℕ} {cname next r : Record} {name : String} (leads : LeadsTo cname name)
      (at_ : AliasAt zones name next) (behind : Behind zones rt n next r) :
      Behind zones rt (n + 1) cname r
  | found {n : ℕ} {cname r : Record} {name : String} {zd : ZoneData} (leads : LeadsTo cname name)
      (zone : findZone zones name = some zd)
      (none : ∀ x ∈ recordsAt zd name, x.recordType ≠ .cname) (at_ : r ∈ recordsAt zd name)
      (type : r.recordType = rt) : Behind zones rt (n + 1) cname r

theorem mem_chaseCname {zones : List ZoneData} {rt : RecordType} {n : ℕ} {cname r : Record} :
    r ∈ chaseCname zones rt n cname ↔ Behind zones rt n cname r := by
  induction n generalizing cname with
  | zero =>
    constructor
    · simp [chaseCname]
    · intro h
      cases h
  | succ n ih =>
    rw [chaseCname]
    constructor
    · intro h
      split at h
      case h_1 => simp at h
      case h_2 target htarget =>
        have leads : LeadsTo cname (normalizeName target) := ⟨target, htarget, rfl⟩
        dsimp only at h
        split at h
        case h_1 => simp at h
        case h_2 zd hzd =>
          split at h
          case h_1 next hnext =>
            obtain rfl | h := List.mem_cons.mp h
            · exact .next leads ⟨zd, hzd, hnext⟩
            · exact .further leads ⟨zd, hzd, hnext⟩ (ih.mp h)
          case h_2 hnone =>
            obtain ⟨hat, htype⟩ := List.mem_filter.mp h
            exact .found leads hzd (by simpa using hnone) hat (by simpa using htype)
    · intro h
      cases h with
      | next leads at_ =>
        obtain ⟨target, htarget, rfl⟩ := leads
        obtain ⟨zd, hzd, hnext⟩ := at_
        simp [htarget, hzd, hnext]
      | further leads at_ behind =>
        obtain ⟨target, htarget, rfl⟩ := leads
        obtain ⟨zd, hzd, hnext⟩ := at_
        simp [htarget, hzd, hnext, ih.mpr behind]
      | found leads zone none at_ type =>
        obtain ⟨target, htarget, rfl⟩ := leads
        have hfind : (recordsAt _ (normalizeName target)).find? (·.recordType == .cname) =
            Option.none := List.find?_eq_none.mpr (by simpa using none)
        simp [htarget, zone, hfind, at_, type]

/-- The records of a zone for a name: those at the name, or of a wildcard when there are none. -/
def ownRecords (zd : ZoneData) (qname : String) : List Record :=
  if qname != normalizeName zd.zone.name && (recordsAt zd qname).isEmpty then
    (wildcardAt zd qname).getD []
  else recordsAt zd qname

/-- The records that a question is answered with. -/
inductive Answers (zones : List ZoneData) (zd : ZoneData) (qname : String) :
    QueryType → Record → Prop
  | any {r : Record} (own : r ∈ ownRecords zd qname) : Answers zones zd qname .any r
  | record {rt : RecordType} {r : Record} (own : r ∈ ownRecords zd qname)
      (type : r.recordType = rt) : Answers zones zd qname (.record rt) r
  | cname {rt : RecordType} {r : Record} (none : ∀ x ∈ ownRecords zd qname, x.recordType ≠ rt)
      (ne : rt ≠ .cname) (own : (ownRecords zd qname).find? (·.recordType == .cname) = some r) :
      Answers zones zd qname (.record rt) r
  | behind {rt : RecordType} {cname r : Record}
      (none : ∀ x ∈ ownRecords zd qname, x.recordType ≠ rt) (ne : rt ≠ .cname)
      (own : (ownRecords zd qname).find? (·.recordType == .cname) = some cname)
      (behind : Behind zones rt chaseLimit cname r) : Answers zones zd qname (.record rt) r

section AnswerAt

variable {snapshot : Snapshot} {records : List Record} {rt : RecordType} {apex : String} {soa : Soa}

theorem answers_answerAt_of_exact (h : ¬ ∀ x ∈ records, x.recordType ≠ rt) :
    (answerAt snapshot records rt apex soa).answers = records.filter (·.recordType == rt) := by
  have hexact : records.filter (·.recordType == rt) ≠ [] := by
    simpa [List.filter_eq_nil_iff] using h
  simp [answerAt, hexact, Resolution.ofAnswers]

theorem answers_answerAt_of_none (h : ∀ x ∈ records, x.recordType ≠ rt) (hrt : rt ≠ .cname) :
    (answerAt snapshot records rt apex soa).answers =
      ((records.find? (·.recordType == .cname)).map fun cname =>
        cname :: chaseCname snapshot.zones rt chaseLimit cname).getD [] := by
  have hexact : records.filter (·.recordType == rt) = [] := by
    simpa [List.filter_eq_nil_iff] using h
  cases hfind : records.find? (·.recordType == .cname) with
  | none => simp [answerAt, hexact, hrt, hfind, Resolution.negative, Resolution.base]
  | some cname => simp [answerAt, hexact, hrt, hfind, Resolution.ofAnswers]

theorem answers_answerAt_cname (h : ∀ x ∈ records, x.recordType ≠ .cname) :
    (answerAt snapshot records .cname apex soa).answers = [] := by
  have hexact : records.filter (·.recordType == .cname) = [] := by
    simpa [List.filter_eq_nil_iff] using h
  simp [answerAt, hexact, Resolution.negative, Resolution.base]

theorem answers_answerAt_nil : (answerAt snapshot [] rt apex soa).answers = [] := by
  by_cases hrt : rt = .cname
  · exact hrt ▸ answers_answerAt_cname (by simp)
  · simp [answers_answerAt_of_none _ hrt]

end AnswerAt

theorem mem_answers_answerAt {snapshot : Snapshot} {zd : ZoneData} {qname apex : String}
    {rt : RecordType} {soa : Soa} {r : Record} :
    r ∈ (answerAt snapshot (ownRecords zd qname) rt apex soa).answers ↔
      Answers snapshot.zones zd qname (.record rt) r := by
  by_cases hnone : ∀ x ∈ ownRecords zd qname, x.recordType ≠ rt
  · by_cases hrt : rt = .cname
    · subst hrt
      rw [answers_answerAt_cname hnone]
      constructor
      · simp
      · intro h
        cases h with
        | record own type => exact absurd type (hnone r own)
        | cname _ ne | behind _ ne => exact absurd rfl ne
    · rw [answers_answerAt_of_none hnone hrt]
      constructor
      · intro h
        cases hfind : (ownRecords zd qname).find? (·.recordType == .cname) with
        | none => simp [hfind] at h
        | some cname =>
          obtain rfl | h : r = cname ∨ r ∈ chaseCname snapshot.zones rt chaseLimit cname := by
            simpa [hfind] using h
          · exact .cname hnone hrt hfind
          · exact .behind hnone hrt hfind (mem_chaseCname.mp h)
      · intro h
        cases h with
        | record own type => exact absurd type (hnone r own)
        | cname _ _ own => simp [own]
        | behind _ _ own behind => simp [own, mem_chaseCname.mpr behind]
  · rw [answers_answerAt_of_exact hnone]
    constructor
    · intro h
      obtain ⟨own, type⟩ := List.mem_filter.mp h
      exact .record own (by simpa using type)
    · intro h
      cases h with
      | record own type => exact List.mem_filter.mpr ⟨own, by simpa using type⟩
      | cname none | behind none => exact absurd none hnone

theorem answers_resolveInZone (snapshot : Snapshot) (zd : ZoneData) (qname : String)
    (qtype : QueryType) :
    (resolveInZone snapshot zd qname qtype).answers =
      match qtype with
      | .any => ownRecords zd qname
      | .record rt =>
        (answerAt snapshot (ownRecords zd qname) rt (normalizeName zd.zone.name)
          zd.zone.soa).answers
      | .soa | .other => [] := by
  by_cases hbare : (qname != normalizeName zd.zone.name && (recordsAt zd qname).isEmpty) = true
  · have hne : qname ≠ normalizeName zd.zone.name := by simp_all
    have hsoa : (qtype == .soa && qname == normalizeName zd.zone.name) = false := by simp [hne]
    cases hw : wildcardAt zd qname with
    | none =>
      simp only [resolveInZone, ownRecords, hsoa, hbare, hw, if_true, Option.getD_none,
        answers_answerAt_nil]
      cases qtype <;> rfl
    | some records =>
      simp only [resolveInZone, ownRecords, hsoa, hbare, hw]
      cases qtype <;> rfl
  · have hbare' := Bool.eq_false_iff.mpr hbare
    cases qtype with
    | soa =>
      simp only [resolveInZone, hbare']
      split <;> rfl
    | _ =>
      simp only [resolveInZone, ownRecords, hbare']
      rfl

theorem mem_answers_resolveInZone {snapshot : Snapshot} {zd : ZoneData} {qname : String}
    {qtype : QueryType} {r : Record} :
    r ∈ (resolveInZone snapshot zd qname qtype).answers ↔
      Answers snapshot.zones zd qname qtype r := by
  rw [answers_resolveInZone]
  cases qtype with
  | record rt => exact mem_answers_answerAt
  | any =>
    constructor
    · exact .any
    · rintro ⟨own⟩
      exact own
  | soa | other =>
    constructor
    · simp
    · intro h
      cases h

namespace Sample

def row (name : String) (recordType : RecordType) (key value : String) : Record where
  id := none
  zone := ""
  name := name
  ttl := 300
  recordType := recordType
  data := object [(key, .text value)]
  enabled := true

def hosted (name : String) (records : List Record) : ZoneData where
  zone := {
    id := name
    name := name
    soa := ⟨"ns", "admin", 1, 1, 1, 2, 60⟩
    enabled := true
    role := .primary
    transferState := none }
  records := records

end Sample

end Magnetite.Dns.Signing
