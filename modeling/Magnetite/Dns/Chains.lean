import Magnetite.Dns.SignedAnswers
import Magnetite.Lib.Orbit

/-!
# Chains of aliases

An answer is a path: CNAME records, each at the name that the one before leads to, and then the
records that were asked for. A chain that comes back to a name that it has passed is not cut there
but goes round until the bound on its length, and then its records stand in the answer several
times. A chain also ends early, at a name that only a wildcard has records for.
-/
namespace Magnetite.Dns.Chains

open Lib Resolver
open Signing (AliasAt LeadsTo ownRecords)

/-- The record stands at the name, in its spelling or another one. -/
def Owns (r : Record) (name : String) : Prop := r.name = name ∨ normalizeName r.name = name

/-- A path from a name: CNAME records, each at the name that the one before leads to, then records
at the last name. -/
inductive Path : String → List Record → List Record → Prop
  | final {name : String} {final : List Record} (own : ∀ r ∈ final, Owns r name) :
      Path name [] final
  | last {name : String} {r : Record} (type : r.recordType = .cname) (own : Owns r name) :
      Path name [r] []
  | step {name next : String} {r : Record} {chain final : List Record}
      (type : r.recordType = .cname) (own : Owns r name) (leads : LeadsTo r next)
      (rest : Path next chain final) : Path name (r :: chain) final

/-- The chain behind a CNAME record as the zones have it, of records at the names or of wildcards
and whatever its length, and the set of records of a type at its end. -/
inductive ChainFrom (zones : List ZoneData) (rt : RecordType) :
    Record → List Record → List Record → Prop
  | ends {r : Record} {name : String} {zd : ZoneData} (leads : LeadsTo r name)
      (zone : findZone zones name = some zd)
      (none : ∀ x ∈ ownRecords zd name, x.recordType ≠ .cname) :
      ChainFrom zones rt r [] ((ownRecords zd name).filter (·.recordType == rt))
  | step {r next : Record} {name : String} {zd : ZoneData} {chain final : List Record}
      (leads : LeadsTo r name) (zone : findZone zones name = some zd)
      (first : (ownRecords zd name).find? (·.recordType == .cname) = some next)
      (rest : ChainFrom zones rt next chain final) : ChainFrom zones rt r (next :: chain) final

/-- Only a wildcard has records for the name that a record leads to. -/
def WildTarget (zones : List ZoneData) (r : Record) : Prop :=
  ∃ name zd, LeadsTo r name ∧ findZone zones name = some zd ∧ recordsAt zd name = [] ∧
    ownRecords zd name ≠ []

/-- The CNAME record that the answer to a question begins with. -/
inductive StartsWith (snapshot : Snapshot) (qname : String) (rt : RecordType) : Record → Prop
  | own {r : Record} {zd : ZoneData} (rpz : rpzAction snapshot.rpz qname = none)
      (zone : findZone snapshot.zones qname = some zd)
      (none : ∀ x ∈ ownRecords zd qname, x.recordType ≠ rt) (ne : rt ≠ .cname)
      (first : (ownRecords zd qname).find? (·.recordType == .cname) = some r) :
      StartsWith snapshot qname rt r
  | redirect {target : String} (rpz : rpzAction snapshot.rpz qname = some (.redirect, some target))
      (given : Text.trim target ≠ "") (ne : rt ≠ .cname) :
      StartsWith snapshot qname rt (synthCname qname target)

/-- The CNAME record at the name that a record leads to. -/
def nextAlias (zones : List ZoneData) (r : Record) : Option Record := do
  let target ← field r.data "target"
  let zd ← findZone zones (normalizeName target)
  (recordsAt zd (normalizeName target)).find? (·.recordType == .cname)

/-- What an answer should be: a path from the name in question, of bounded length and with no CNAME
record twice, that ends with the set of records that was asked for, if there is one. -/
structure Chased (snapshot : Snapshot) (qname : String) (qtype : QueryType)
    (answers : List Record) : Prop where
  path : ∃ chain final, answers = chain ++ final ∧ Path qname chain final ∧ chain.Nodup ∧
    chain.length ≤ chaseLimit + 1 ∧
    ∀ rt, qtype = .record rt → ∀ r ∈ final, r.recordType = rt
  direct : ∀ rt zd, qtype = .record rt → rpzAction snapshot.rpz qname = none →
    findZone snapshot.zones qname = some zd →
    (ownRecords zd qname).filter (·.recordType == rt) ≠ [] →
    answers = (ownRecords zd qname).filter (·.recordType == rt)
  ends : ∀ rt r chain final, qtype = .record rt → StartsWith snapshot qname rt r →
    ChainFrom snapshot.zones rt r chain final → final ≠ [] →
    (r :: chain).length ≤ chaseLimit → answers = r :: chain ++ final

/-! ## What the chase collects -/

section Chase

variable {zones : List ZoneData} {rt : RecordType} {n : ℕ} {r next : Record} {name : String}

theorem nextAlias_eq (leads : LeadsTo r name) (at_ : AliasAt zones name next) :
    nextAlias zones r = some next := by
  obtain ⟨target, htarget, rfl⟩ := leads
  obtain ⟨zd, hzd, hnext⟩ := at_
  simp [nextAlias, htarget, hzd, hnext]

theorem chaseCname_step (leads : LeadsTo r name) (at_ : AliasAt zones name next) :
    chaseCname zones rt (n + 1) r = next :: chaseCname zones rt n next := by
  obtain ⟨target, htarget, rfl⟩ := leads
  obtain ⟨zd, hzd, hnext⟩ := at_
  simp [chaseCname, htarget, hzd, hnext]

theorem chaseCname_ends {zd : ZoneData} (leads : LeadsTo r name)
    (zone : findZone zones name = some zd)
    (none : ∀ x ∈ recordsAt zd name, x.recordType ≠ .cname) :
    chaseCname zones rt (n + 1) r = (recordsAt zd name).filter (·.recordType == rt) := by
  obtain ⟨target, htarget, rfl⟩ := leads
  have hfind : (recordsAt zd (normalizeName target)).find? (·.recordType == .cname) = .none :=
    List.find?_eq_none.mpr (by simpa using none)
  simp [chaseCname, htarget, zone, hfind]

/-- The record leads to an alias, to a name without one, or out of the zones. -/
theorem target_cases (zones : List ZoneData) (rt : RecordType) (r : Record) :
    (∃ name next, LeadsTo r name ∧ AliasAt zones name next) ∨
    (∃ name zd, LeadsTo r name ∧ findZone zones name = some zd ∧
      (∀ x ∈ recordsAt zd name, x.recordType ≠ .cname) ∧ nextAlias zones r = none) ∨
    (nextAlias zones r = none ∧ ∀ n, chaseCname zones rt n r = []) := by
  cases htarget : field r.data "target" with
  | none =>
    refine .inr (.inr ⟨by simp [nextAlias, htarget], fun n => ?_⟩)
    cases n <;> simp [chaseCname, htarget]
  | some target =>
    cases hzone : findZone zones (normalizeName target) with
    | none =>
      refine .inr (.inr ⟨by simp [nextAlias, htarget, hzone], fun n => ?_⟩)
      cases n <;> simp [chaseCname, htarget, hzone]
    | some zd =>
      have leads : LeadsTo r (normalizeName target) := ⟨target, htarget, rfl⟩
      cases hfind : (recordsAt zd (normalizeName target)).find? (·.recordType == .cname) with
      | some next => exact .inl ⟨_, next, leads, zd, hzone, hfind⟩
      | none =>
        refine .inr (.inl ⟨_, zd, leads, hzone, ?_, by simp [nextAlias, htarget, hzone, hfind]⟩)
        simpa using List.find?_eq_none.mp hfind

theorem mem_recordsAt {zd : ZoneData} (h : r ∈ recordsAt zd name) : Owns r name := by
  have hname : normalizeName r.name = name := by
    have := (List.mem_filter.mp h).2
    simp_all
  exact .inr hname

theorem aliasAt_spec (h : AliasAt zones name r) : Owns r name ∧ r.recordType = .cname := by
  obtain ⟨zd, -, hfind⟩ := h
  exact ⟨mem_recordsAt (List.mem_of_find?_eq_some hfind), by simpa using List.find?_some hfind⟩

/-- The chase collects a path of the aliases in turn. -/
theorem chaseCname_path (zones : List ZoneData) (rt : RecordType) (n : ℕ) (own : Owns r name)
    (type : r.recordType = .cname) :
    ∃ final, chaseCname zones rt n r = Orbit.orbit (nextAlias zones) n r ++ final ∧
      Path name (r :: Orbit.orbit (nextAlias zones) n r) final ∧
      ∀ x ∈ final, x.recordType = rt := by
  -- By the number of steps left; the record at hand is the last one if nothing is behind it.
  induction n generalizing r name with
  | zero => exact ⟨[], rfl, .last type own, by simp⟩
  | succ n ih =>
    obtain ⟨mid, next, leads, at_⟩ | ⟨mid, zd, leads, zone, none, hnext⟩ | ⟨hnext, hchase⟩ :=
      target_cases zones rt r
    · obtain ⟨own', type'⟩ := aliasAt_spec at_
      obtain ⟨final, hchase, hpath, hfinal⟩ := ih own' type'
      refine ⟨final, ?_, ?_, hfinal⟩
      · rw [chaseCname_step leads at_, Orbit.orbit, nextAlias_eq leads at_, hchase]
        rfl
      · rw [Orbit.orbit, nextAlias_eq leads at_]
        exact .step type own leads hpath
    · refine ⟨(recordsAt zd mid).filter (·.recordType == rt), ?_, ?_, ?_⟩
      · rw [chaseCname_ends leads zone none, Orbit.orbit, hnext]
        rfl
      · rw [Orbit.orbit, hnext]
        exact .step type own leads (.final fun x hx => mem_recordsAt (List.mem_filter.mp hx).1)
      · intro x hx
        simpa using (List.mem_filter.mp hx).2
    · refine ⟨[], ?_, ?_, by simp⟩
      · rw [hchase, Orbit.orbit, hnext]
        rfl
      · rw [Orbit.orbit, hnext]
        exact .last type own

theorem ownRecords_eq {zd : ZoneData} (leads : LeadsTo r name) (zone : findZone zones name = some zd)
    (h : ¬ WildTarget zones r) : ownRecords zd name = recordsAt zd name := by
  by_contra hne
  have hempty : recordsAt zd name = [] := by
    unfold ownRecords at hne
    split at hne
    case isTrue hwild => exact List.isEmpty_iff.mp (Bool.and_eq_true_iff.mp hwild).2
    case isFalse => exact absurd rfl hne
  exact h ⟨name, zd, leads, zone, hempty, hempty ▸ hne⟩

/-- A chain within the bound is collected to its end. -/
theorem chaseCname_of_chainFrom {chain final : List Record}
    (h : ChainFrom zones rt r chain final) (hwild : ∀ x ∈ r :: chain, ¬ WildTarget zones x)
    (hn : chain.length < n) : chaseCname zones rt n r = chain ++ final := by
  induction h generalizing n with
  | ends leads zone none =>
    obtain ⟨n, rfl⟩ : ∃ m, n = m + 1 := ⟨n - 1, by simp at hn; omega⟩
    rw [ownRecords_eq leads zone (hwild _ List.mem_cons_self)] at none ⊢
    exact chaseCname_ends leads zone none
  | step leads zone first rest ih =>
    obtain ⟨hr, hrest⟩ := List.forall_mem_cons.mp hwild
    rw [ownRecords_eq leads zone hr] at first
    rw [List.length_cons] at hn
    obtain ⟨n, rfl⟩ : ∃ m, n = m + 1 := ⟨n - 1, by omega⟩
    rw [chaseCname_step leads ⟨_, zone, first⟩, ih hrest (by omega)]
    rfl

theorem chaseCname_of_wildTarget (h : WildTarget zones r) : chaseCname zones rt n r = [] := by
  obtain ⟨name, zd, ⟨target, htarget, rfl⟩, zone, hempty, -⟩ := h
  cases n <;> simp [chaseCname, htarget, zone, hempty]

/-- At a name that only a wildcard has records for, the chase stops. -/
theorem length_chaseCname_le {chain final : List Record} (h : ChainFrom zones rt r chain final)
    (hwild : ∃ x ∈ r :: chain, WildTarget zones x) :
    (chaseCname zones rt n r).length ≤ chain.length := by
  induction h generalizing n with
  | ends leads zone none =>
    obtain ⟨x, hx, hwild⟩ := hwild
    rw [List.mem_singleton.mp hx] at hwild
    simp [chaseCname_of_wildTarget hwild]
  | @step r next name zd chain final leads zone first rest ih =>
    by_cases hr : WildTarget zones r
    · simp [chaseCname_of_wildTarget hr]
    · have hrest : ∃ x ∈ next :: chain, WildTarget zones x := by
        obtain ⟨x, hx, hwild⟩ := hwild
        rcases List.mem_cons.mp hx with rfl | hx
        · exact absurd hwild hr
        · exact ⟨x, hx, hwild⟩
      rw [ownRecords_eq leads zone hr] at first
      cases n with
      | zero => exact Nat.zero_le _
      | succ n =>
        rw [chaseCname_step leads ⟨zd, zone, first⟩]
        exact Nat.succ_le_succ (ih hrest)

end Chase

/-! ## What is answered -/

section Answer

variable {snapshot : Snapshot} {qname : String} {qtype : QueryType} {rt : RecordType} {r : Record}

theorem mem_ownRecords {zd : ZoneData} (h : r ∈ ownRecords zd qname) : Owns r qname := by
  unfold ownRecords at h
  split at h
  · obtain ⟨hw, -⟩ | ⟨base, hw, -⟩ := wildcardAt_cases zd qname
    · simp [hw] at h
    · rw [hw, Option.getD_some] at h
      obtain ⟨x, -, rfl⟩ := List.mem_map.mp h
      exact .inl rfl
  · exact mem_recordsAt h

theorem startsWith_spec (h : StartsWith snapshot qname rt r) :
    Owns r qname ∧ r.recordType = .cname ∧ rt ≠ .cname := by
  cases h with
  | own _ _ _ ne first =>
    have hcname := List.find?_some first
    exact ⟨mem_ownRecords (List.mem_of_find?_eq_some first), by simpa using hcname, ne⟩
  | redirect _ _ ne => exact ⟨.inl rfl, rfl, ne⟩

theorem answers_of_startsWith (h : StartsWith snapshot (normalizeName qname) rt r) :
    (resolveIn snapshot qname (.record rt)).answers =
      r :: chaseCname snapshot.zones rt chaseLimit r := by
  cases h with
  | own rpz zone none ne first =>
    simp only [resolveIn, rpz, zone, Signing.answers_resolveInZone,
      Signing.answers_answerAt_of_none none ne, first, Option.map_some, Option.getD_some]
  | @redirect target rpz given ne =>
    have hgiven : (some target).filter (fun t => Text.trim t != "") = some target := by
      simp [Option.filter, given]
    simp [resolveIn, rpz, applyRpz, applyRpzInner, hgiven, ne]

theorem answers_rpz {action : RpzAction} {redirectTo : Option String}
    (rpz : rpzAction snapshot.rpz (normalizeName qname) = some (action, redirectTo))
    (hstart : ∀ rt r, qtype = .record rt → ¬ StartsWith snapshot (normalizeName qname) rt r) :
    (resolveIn snapshot qname qtype).answers = [] ∨
      ∃ target, (resolveIn snapshot qname qtype).answers =
        [synthCname (normalizeName qname) target] := by
  cases action with
  | redirect =>
    cases hgiven : redirectTo.filter (fun t => Text.trim t != "") with
    | none =>
      left
      simp [resolveIn, rpz, applyRpz, applyRpzInner, hgiven, Resolution.base]
    | some target =>
      obtain ⟨rfl, hne⟩ := Option.filter_eq_some_iff.mp hgiven
      refine .inr ⟨target, ?_⟩
      cases qtype with
      | record rt =>
        have hrt : rt = .cname := by
          by_contra ne
          exact hstart rt _ rfl (.redirect rpz (by simpa using hne) ne)
        simp [resolveIn, rpz, applyRpz, applyRpzInner, hgiven, hrt]
      | _ => simp [resolveIn, rpz, applyRpz, applyRpzInner, hgiven]
  | _ =>
    left
    simp [resolveIn, rpz, applyRpz, applyRpzInner, Resolution.base, Resolution.dropped]

theorem answers_zone {zd : ZoneData} (rpz : rpzAction snapshot.rpz (normalizeName qname) = none)
    (zone : findZone snapshot.zones (normalizeName qname) = some zd)
    (hstart : ∀ rt r, qtype = .record rt → ¬ StartsWith snapshot (normalizeName qname) rt r) :
    (∀ r ∈ (resolveIn snapshot qname qtype).answers, Owns r (normalizeName qname)) ∧
      ∀ rt, qtype = .record rt → ∀ r ∈ (resolveIn snapshot qname qtype).answers,
        r.recordType = rt := by
  have heq : (resolveIn snapshot qname qtype).answers =
      (resolveInZone snapshot zd (normalizeName qname) qtype).answers := by
    simp [resolveIn, rpz, zone]
  rw [heq]
  have hown : ∀ r ∈ (resolveInZone snapshot zd (normalizeName qname) qtype).answers,
      r ∈ ownRecords zd (normalizeName qname) ∧ ∀ rt, qtype = .record rt → r.recordType = rt := by
    intro r hr
    cases Signing.mem_answers_resolveInZone.mp hr with
    | any own => exact ⟨own, by simp⟩
    | record own type => exact ⟨own, by rintro rt ⟨⟩; exact type⟩
    | cname none ne own => exact absurd (.own rpz zone none ne own) (hstart _ _ rfl)
    | behind none ne own => exact absurd (.own rpz zone none ne own) (hstart _ _ rfl)
  exact ⟨fun r hr => mem_ownRecords (hown r hr).1, fun rt hrt r hr => (hown r hr).2 rt hrt⟩

theorem path_synthCname (qname target : String) : Path qname [synthCname qname target] [] :=
  .last rfl (.inl rfl)

/-- An answer that does not begin with a chain has at most one CNAME record made by a policy. -/
theorem path_of_not_startsWith
    (hstart : ∀ rt r, qtype = .record rt → ¬ StartsWith snapshot (normalizeName qname) rt r) :
    ∃ chain final, (resolveIn snapshot qname qtype).answers = chain ++ final ∧
      Path (normalizeName qname) chain final ∧ chain.Nodup ∧ chain.length ≤ chaseLimit + 1 ∧
      ∀ rt, qtype = .record rt → ∀ r ∈ final, r.recordType = rt := by
  cases rpz : rpzAction snapshot.rpz (normalizeName qname) with
  | some rule =>
    obtain h | ⟨target, h⟩ := answers_rpz rpz hstart
    · exact ⟨[], [], h, .final (by simp), by simp, by simp, by simp⟩
    · exact ⟨_, [], h, path_synthCname _ _, by simp, by simp [chaseLimit], by simp⟩
  | none =>
    cases zone : findZone snapshot.zones (normalizeName qname) with
    | none =>
      have h : (resolveIn snapshot qname qtype).answers = [] := by
        simp [resolveIn, rpz, zone, Resolution.refused, Resolution.base]
      exact ⟨[], [], h, .final (by simp), by simp, by simp, by simp⟩
    | some zd =>
      obtain ⟨hown, htype⟩ := answers_zone rpz zone hstart
      exact ⟨[], _, rfl, .final hown, by simp, by simp, htype⟩

theorem answers_direct {zd : ZoneData} (rpz : rpzAction snapshot.rpz (normalizeName qname) = none)
    (zone : findZone snapshot.zones (normalizeName qname) = some zd)
    (hexact : (ownRecords zd (normalizeName qname)).filter (·.recordType == rt) ≠ []) :
    (resolveIn snapshot qname (.record rt)).answers =
      (ownRecords zd (normalizeName qname)).filter (·.recordType == rt) := by
  have hsome : ¬ ∀ x ∈ ownRecords zd (normalizeName qname), x.recordType ≠ rt := by
    simpa [List.filter_eq_nil_iff] using hexact
  simp only [resolveIn, rpz, zone, Signing.answers_resolveInZone,
    Signing.answers_answerAt_of_exact hsome]

theorem Path.filter_chain {name : String} {chain final : List Record} (h : Path name chain final)
    (hrt : rt ≠ .cname) (hfinal : ∀ r ∈ final, r.recordType = rt) :
    (chain ++ final).filter (·.recordType == .cname) = chain := by
  have hchain : ∀ r ∈ chain, r.recordType = .cname := by
    clear hfinal
    induction h with
    | final => simp
    | last type => simpa using type
    | step type _ _ _ ih => simpa using ⟨type, ih⟩
  rw [List.filter_append, List.filter_eq_self.mpr (by simpa using hchain),
    List.filter_eq_nil_iff.mpr, List.append_nil]
  intro r hr
  simpa [hfinal r hr] using hrt

/-- An answer is what it should be exactly when its chain does not come back to one of its records
within the bound, and when no chain to a set of records that was asked for goes on, or ends, at a
name that only a wildcard has records for. -/
theorem chased_iff (snapshot : Snapshot) (qname : String) (qtype : QueryType) :
    Chased snapshot (normalizeName qname) qtype (resolveIn snapshot qname qtype).answers ↔
      ∀ rt r, qtype = .record rt → StartsWith snapshot (normalizeName qname) rt r →
        ¬ Orbit.LoopsWithin (nextAlias snapshot.zones) chaseLimit r ∧
        ∀ chain final, ChainFrom snapshot.zones rt r chain final → final ≠ [] →
          (r :: chain).length ≤ chaseLimit → ∀ x ∈ r :: chain, ¬ WildTarget snapshot.zones x := by
  constructor
  · rintro h rt r rfl hstart
    refine ⟨?_, fun chain final hchain hfinal hlen x hx hwild => ?_⟩
    case refine_2 =>
      have hanswers := h.ends rt r chain final rfl hstart hchain hfinal hlen
      rw [answers_of_startsWith hstart, List.cons_append] at hanswers
      have hshort := length_chaseCname_le (n := chaseLimit) hchain ⟨x, hx, hwild⟩
      rw [(List.cons.inj hanswers).2, List.length_append] at hshort
      exact hfinal (List.length_eq_zero_iff.mp (by omega))
    obtain ⟨own, type, ne⟩ := startsWith_spec hstart
    obtain ⟨chain, final, heq, hpath, hnodup, -, hfinal⟩ := h.path
    obtain ⟨final', hchase, hpath', hfinal'⟩ :=
      chaseCname_path snapshot.zones rt chaseLimit own type
    -- Both ways to cut the answer agree on where the aliases end.
    have hchain := hpath'.filter_chain ne hfinal'
    rw [List.cons_append, ← hchase, ← answers_of_startsWith hstart, heq,
      hpath.filter_chain ne (hfinal rt rfl)] at hchain
    rw [← Orbit.nodup_orbit_iff, ← hchain]
    exact hnodup
  · intro h
    refine ⟨?_, ?_, ?_⟩
    · by_cases hstart : ∃ rt r, qtype = .record rt ∧ StartsWith snapshot (normalizeName qname) rt r
      · obtain ⟨rt, r, rfl, hstart⟩ := hstart
        obtain ⟨own, type, -⟩ := startsWith_spec hstart
        obtain ⟨final, hchase, hpath, hfinal⟩ :=
          chaseCname_path snapshot.zones rt chaseLimit own type
        refine ⟨_, final, ?_, hpath, Orbit.nodup_orbit_iff.mpr (h rt r rfl hstart).1,
          Nat.succ_le_succ (Orbit.length_orbit_le _ _), ?_⟩
        · rw [answers_of_startsWith hstart, hchase, List.cons_append]
        · rintro _ ⟨⟩
          exact hfinal
      · exact path_of_not_startsWith fun rt r hrt hr => hstart ⟨rt, r, hrt, hr⟩
    · rintro rt zd rfl rpz zone hexact
      exact answers_direct rpz zone hexact
    · rintro rt r chain final rfl hstart hchain hfinal hlen
      have hwild := (h rt r rfl hstart).2 chain final hchain hfinal hlen
      rw [answers_of_startsWith hstart, chaseCname_of_chainFrom hchain hwild hlen,
        List.cons_append]

end Answer

namespace Sample

open Signing.Sample (row hosted)

/-- Two names that are aliases of each other. -/
def looped : Snapshot where
  zones := [hosted "a.test" [row "x.a.test" .cname "target" "y.a.test",
    row "y.a.test" .cname "target" "x.a.test"]]
  rpz := []

/-- An alias of a name that a wildcard has an address for. -/
def wild : Snapshot where
  zones := [hosted "a.test" [row "x.a.test" .cname "target" "y.a.test",
    row "*.a.test" .a "address" "192.0.2.1"]]
  rpz := []

/-- The two records stand in the answer until the bound is reached; the alias of the other zone is
answered without the address that its target has. -/
theorem alias_loop_repeated :
    ¬ Chased looped (normalizeName "x.a.test") (.record .a)
      (resolveIn looped "x.a.test" (.record .a)).answers ∧
    (resolveIn wild "x.a.test" (.record .a)).answers.map (·.recordType) = [.cname] ∧
    (resolveIn wild "y.a.test" (.record .a)).answers.map (·.recordType) = [.a] := by
  refine ⟨?_, by decide +kernel, by decide +kernel⟩
  rintro ⟨⟨chain, final, heq, hpath, hnodup, -, hfinal⟩, -, -⟩
  have hchain := hpath.filter_chain (by decide) (hfinal _ rfl)
  rw [← hchain, ← heq] at hnodup
  exact absurd hnodup (by decide +kernel)

end Sample

end Magnetite.Dns.Chains
