import Magnetite.Dns.Resolver

/-!
# Wildcards and empty non-terminals

A name exists if a record is at it or below it. A name that does not exist is answered from the
wildcard at its closest encloser, the longest ancestor that exists, and from no other one. The
resolver looks only at the names that own records: a name that exists without one is not seen, and
any wildcard above a name matches.
-/
namespace Magnetite.Dns.Resolver

open Magnetite.Lib

variable {snapshot : Snapshot} {zd : ZoneData} {qname base : String}

def ZoneData.apex (zd : ZoneData) : String := normalizeName zd.zone.name

/-! ### What should be answered -/

/-- The name or one below it has an enabled record. The apex has the SOA. -/
def nameExists (zd : ZoneData) (name : String) : Bool :=
  name == zd.apex || zd.records.any fun r =>
    r.enabled && (normalizeName r.name == name || decide (Under (normalizeName r.name) name))

/-- The longest ancestor that exists. -/
def closestEncloser (zd : ZoneData) (qname : String) : String :=
  ((ancestors qname).find? (nameExists zd)).getD zd.apex

/-- The records of the wildcard at a name, as records of the queried name. -/
def synthesized (zd : ZoneData) (qname base : String) : List Record :=
  (recordsAt zd ("*." ++ base)).map fun r => { r with name := qname }

/-- The answer for a name without records. -/
def expected (snapshot : Snapshot) (zd : ZoneData) (qname : String)
    (qtype : QueryType) : Resolution :=
  if nameExists zd qname then .negative .noError zd.apex zd.zone.soa
  else
    match synthesized zd qname (closestEncloser zd qname) with
    | [] => .negative .nxDomain zd.apex zd.zone.soa
    | records => wildcardAnswer snapshot records qtype zd.apex zd.zone.soa

/-! ### The zone of a name -/

theorem mem_of_maxByKey {α : Type} {key : α → ℕ} {l : List α} {a : α} (h : maxByKey key l = some a) :
    a ∈ l := by
  unfold maxByKey at h
  -- The best so far is kept or replaced by an element of the list.
  suffices ∀ best, best = none → best = some a ∨ a ∈ l from (this none rfl).resolve_left nofun
  intro best hbest
  rw [← hbest] at h
  clear hbest
  induction l generalizing best with
  | nil => exact .inl h
  | cons x l ih =>
    obtain hx | hmem := ih _ h
    · cases best with
      | none => exact .inr (List.mem_cons.mpr (.inl (Option.some.inj hx).symm))
      | some b =>
        dsimp only at hx
        split at hx
        · exact .inr (List.mem_cons.mpr (.inl (Option.some.inj hx).symm))
        · exact .inl hx
    · exact .inr (List.mem_cons_of_mem _ hmem)

theorem under_apex (h : findZone snapshot.zones qname = some zd) (hapex : qname ≠ zd.apex) :
    Under qname zd.apex := by
  have hmem := (List.mem_filter.mp (mem_of_maxByKey h)).2
  simp only [Bool.or_eq_true, beq_iff_eq, endsWith_dot] at hmem
  exact hmem.resolve_left hapex

theorem closestEncloser_spec (h : Under qname zd.apex) :
    Under qname (closestEncloser zd qname) ∧ nameExists zd (closestEncloser zd qname) ∧
      ∀ b, Under qname b → nameExists zd b →
        b = closestEncloser zd qname ∨ Under (closestEncloser zd qname) b := by
  have hexists : nameExists zd zd.apex := by simp [nameExists]
  cases hfind : (ancestors qname).find? (nameExists zd) with
  | none => exact absurd hexists (List.find?_eq_none.mp hfind _ (mem_ancestors.mpr h))
  | some ce =>
    rw [closestEncloser, hfind]
    exact find?_ancestors hfind

/-! ### The wildcard that is taken -/

/-- The zone has a wildcard that matches the name. -/
def Matches (zd : ZoneData) (qname base : String) : Prop :=
  Under qname base ∧ recordsAt zd ("*." ++ base) ≠ []

theorem stripPrefix_eq_some {s p t : String} : Text.stripPrefix s p = some t ↔ s = p ++ t := by
  unfold Text.stripPrefix Text.startsWith
  constructor
  · intro h
    split at h
    case isTrue hp =>
      obtain ⟨rest, hrest⟩ := List.isPrefixOf_iff_prefix.mp hp
      apply String.toList_inj.mp
      rw [← Option.some.inj h, String.toList_append, String.toList_ofList, ← hrest, List.drop_left]
    case isFalse => cases h
  · rintro rfl
    rw [String.toList_append, List.drop_left, String.ofList_toList, if_pos]
    exact List.isPrefixOf_iff_prefix.mpr (List.prefix_append _ _)

theorem wildcardBase_eq_some {owner : String} :
    wildcardBase qname owner = some base ↔ owner = "*." ++ base ∧ Under qname base := by
  rw [wildcardBase, Option.filter_eq_some_iff, stripPrefix_eq_some, endsWith_dot]

theorem recordsAt_ne_nil {name : String} :
    recordsAt zd name ≠ [] ↔ ∃ r ∈ zd.records, r.enabled ∧ normalizeName r.name = name := by
  simp [recordsAt, List.filter_eq_nil_iff]

/-- The base of a record of a wildcard that matches. -/
def matchedBase (qname : String) (r : Record) : Option String :=
  if r.enabled then wildcardBase qname (normalizeName r.name) else none

theorem mem_matchedBases : base ∈ zd.records.filterMap (matchedBase qname) ↔
    Matches zd qname base := by
  simp only [List.mem_filterMap, matchedBase, Option.ite_none_right_eq_some, wildcardBase_eq_some,
    Matches, recordsAt_ne_nil]
  constructor
  · rintro ⟨r, hr, hen, hname, hunder⟩
    exact ⟨hunder, r, hr, hen, hname⟩
  · rintro ⟨hunder, r, hr, hen, hname⟩
    exact ⟨r, hr, hen, hname, hunder⟩

def longer (best : Option String) (base : String) : Option String :=
  if best.all (·.utf8ByteSize < base.utf8ByteSize) then some base else best

/-- What is remembered of the best base. -/
def noted (base : String) : ℕ × String := (base.utf8ByteSize, "*." ++ base)

theorem better_noted (best : Option String) (r : Record) :
    better qname (best.map noted) r = ((matchedBase qname r).toList.foldl longer best).map noted := by
  unfold better matchedBase
  by_cases hen : r.enabled
  · cases hbase : wildcardBase qname (normalizeName r.name) with
    | none => simp [hen]
    | some base =>
      have hall : (best.map noted).all (·.1 < base.utf8ByteSize) =
          best.all (·.utf8ByteSize < base.utf8ByteSize) := by cases best <;> rfl
      simp only [hen, hall, longer, Option.toList_some, List.foldl_cons, List.foldl_nil, if_true,
        Bool.not_true, Bool.false_eq_true, if_false]
      split
      · rw [(wildcardBase_eq_some.mp hbase).1]
        rfl
      · rfl
  · simp [hen]

theorem foldl_better (qname : String) (records : List Record) (best : Option String) :
    records.foldl (better qname) (best.map noted) =
      ((records.filterMap (matchedBase qname)).foldl longer best).map noted := by
  induction records generalizing best with
  | nil => rfl
  | cons r records ih =>
    rw [List.foldl_cons, better_noted, ih, List.filterMap_cons]
    cases matchedBase qname r <;> rfl

/-- The first of the longest. -/
theorem foldl_longer (bases : List String) (best : Option String) :
    match bases.foldl longer best with
    | none => bases = [] ∧ best = none
    | some b => (b ∈ bases ∨ best = some b) ∧
        ∀ b', b' ∈ bases ∨ best = some b' → b'.utf8ByteSize ≤ b.utf8ByteSize := by
  induction bases generalizing best with
  | nil => cases best <;> simp
  | cons base bases ih =>
    rw [List.foldl_cons]
    have h := ih (longer best base)
    have hlonger : longer best base = some base ∨ longer best base = best := by
      unfold longer
      split <;> simp
    have hsize : ∀ b, b = base ∨ best = some b → ∃ c, longer best base = some c ∧
        b.utf8ByteSize ≤ c.utf8ByteSize := by
      unfold longer
      cases best with
      | none => simp
      | some c =>
        by_cases hlt : c.utf8ByteSize < base.utf8ByteSize
        · simp [hlt, hlt.le]
        · simp [hlt, not_lt.mp hlt]
    split at h
    case h_1 =>
      obtain ⟨c, hc, -⟩ := hsize base (.inl rfl)
      rw [h.2] at hc
      cases hc
    case h_2 b _ =>
      refine ⟨?_, fun b' hb' => ?_⟩
      · obtain hb | hb := h.1
        · exact .inl (List.mem_cons_of_mem _ hb)
        · obtain hl | hl := hlonger
          · rw [hl] at hb
            exact .inl (List.mem_cons.mpr (.inl (Option.some.inj hb).symm))
          · exact .inr (hl ▸ hb)
      · rw [List.mem_cons] at hb'
        by_cases hmem : b' ∈ bases
        · exact h.2 b' (.inl hmem)
        · obtain ⟨c, hc, hle⟩ := hsize b' (by tauto)
          exact hle.trans (h.2 c (.inr hc))

/-- The longest wildcard that matches, if any does. -/
theorem wildcardAt_cases (zd : ZoneData) (qname : String) :
    (wildcardAt zd qname = none ∧ ∀ base, ¬ Matches zd qname base) ∨
      ∃ base, wildcardAt zd qname = some (synthesized zd qname base) ∧ Matches zd qname base ∧
        ∀ b, Matches zd qname b → b = base ∨ Under base b := by
  have hfold := foldl_better qname zd.records none
  have h := foldl_longer (zd.records.filterMap (matchedBase qname)) none
  split at h
  case h_1 heq =>
    left
    rw [heq] at hfold
    refine ⟨?_, fun base hbase => ?_⟩
    · rw [wildcardAt, show zd.records.foldl (better qname) none = none from hfold]
      rfl
    · rw [← mem_matchedBases, h.1] at hbase
      cases hbase
  case h_2 base heq =>
    right
    rw [heq] at hfold
    have hbase : Matches zd qname base := mem_matchedBases.mp (h.1.resolve_right nofun)
    refine ⟨base, ?_, hbase, fun b hb => ?_⟩
    · have hne : synthesized zd qname base ≠ [] := by simpa [synthesized] using hbase.2
      rw [wildcardAt, show zd.records.foldl (better qname) none = some (noted base) from hfold]
      exact if_neg (by simpa [List.isEmpty_iff, synthesized, noted] using hne)
    · have hle := h.2 b (.inl (mem_matchedBases.mpr hb))
      obtain heq | hunder | hunder := hb.1.total hbase.1
      · exact .inl heq
      · exact absurd hunder.utf8ByteSize_lt (not_lt.mpr hle)
      · exact .inr hunder

/-! ### When the answer is right -/

theorem nameExists_of_matches (h : Matches zd qname base) : nameExists zd base := by
  obtain ⟨r, hr, hen, hname⟩ := recordsAt_ne_nil.mp h.2
  have hunder : Under (normalizeName r.name) base := by
    rw [hname]
    exact under_append "*" base
  simp only [nameExists, Bool.or_eq_true, List.any_eq_true, Bool.and_eq_true, decide_eq_true_eq]
  exact .inr ⟨r, hr, hen, .inr hunder⟩

/-- Of all wildcards that match only that of the closest encloser is taken. -/
theorem eq_closestEncloser (hzone : Under qname zd.apex) (hbase : Matches zd qname base)
    (hmax : ∀ b, Matches zd qname b → b = base ∨ Under base b)
    (hce : Matches zd qname (closestEncloser zd qname)) : base = closestEncloser zd qname := by
  obtain ⟨-, -, hlongest⟩ := closestEncloser_spec hzone
  obtain heq | hunder := hmax _ hce
  · exact heq.symm
  · exact (hlongest base hbase.1 (nameExists_of_matches hbase)).resolve_right hunder.asymm

theorem resolveIn_eq (hrpz : rpzAction snapshot.rpz (normalizeName qname) = none)
    (hzone : findZone snapshot.zones (normalizeName qname) = some zd) (qtype : QueryType) :
    resolveIn snapshot qname qtype = resolveInZone snapshot zd (normalizeName qname) qtype := by
  simp only [resolveIn, hrpz, hzone]

theorem resolveInZone_of_absent (hapex : qname ≠ zd.apex) (hown : recordsAt zd qname = [])
    (qtype : QueryType) :
    resolveInZone snapshot zd qname qtype =
      match wildcardAt zd qname with
      | some records => wildcardAnswer snapshot records qtype zd.apex zd.zone.soa
      | none => .negative .nxDomain zd.apex zd.zone.soa := by
  have hne : (qname == normalizeName zd.zone.name) = false := beq_eq_false_iff_ne.mpr hapex
  cases hwild : wildcardAt zd qname <;> simp [resolveInZone, hne, bne, hown, ZoneData.apex, hwild]

theorem fromRpz_wildcardAnswer (records : List Record) (qtype : QueryType) (apex : String)
    (soa : Soa) : (wildcardAnswer snapshot records qtype apex soa).fromRpz = false := by
  cases qtype with
  | record rt =>
    obtain ⟨h, -⟩ | ⟨answers, -, h⟩ := answerAt_cases snapshot records rt apex soa
    · rw [wildcardAnswer, h]; rfl
    · rw [wildcardAnswer, h]; rfl
  | soa => rfl
  | any => rfl
  | other => rfl

theorem fromRpz_expected (qtype : QueryType) :
    (expected snapshot zd qname qtype).fromRpz = false := by
  unfold expected
  split
  · rfl
  · split
    · rfl
    · exact fromRpz_wildcardAnswer _ _ _ _

/-- The name has no records, is in the zone, and no policy applies. -/
theorem expected_iff (hzone : Under qname zd.apex) :
    (∀ qtype, (match wildcardAt zd qname with
        | some records => wildcardAnswer snapshot records qtype zd.apex zd.zone.soa
        | none => .negative .nxDomain zd.apex zd.zone.soa) = expected snapshot zd qname qtype) ↔
      nameExists zd qname = false ∧
      ((∃ base, Matches zd qname base) → Matches zd qname (closestEncloser zd qname)) := by
  have hce := (closestEncloser_spec hzone).1
  have hsynth {base : String} (h : Under qname base) :
      synthesized zd qname base = [] ↔ ¬ Matches zd qname base := by
    simp [synthesized, Matches, h]
  obtain ⟨hnone, hmatch⟩ | ⟨base, hsome, hbase, hmax⟩ := wildcardAt_cases zd qname
  · rw [hnone]
    constructor
    · intro h
      refine ⟨?_, fun ⟨base, hbase⟩ => absurd hbase (hmatch base)⟩
      by_contra hexists
      have := congrArg Resolution.rcode (h .any)
      rw [expected, if_pos (by simpa using hexists)] at this
      cases this
    · rintro ⟨hexists, -⟩ qtype
      rw [expected, hexists, (hsynth hce).mpr (hmatch _)]
      rfl
  · rw [hsome]
    have hne : synthesized zd qname base ≠ [] := fun h => (hsynth hbase.1).mp h hbase
    constructor
    · intro h
      have hany : Resolution.ofAnswers (synthesized zd qname base) =
          expected snapshot zd qname .any :=
        h .any
      have hanswers := congrArg Resolution.answers hany
      unfold expected at hanswers
      split at hanswers
      · exact absurd hanswers hne
      case isFalse hexists =>
        refine ⟨by simpa using hexists, fun _ => ?_⟩
        split at hanswers
        · exact absurd hanswers hne
        case h_2 hfound => exact not_not.mp fun hnot => hfound ((hsynth hce).mpr hnot)
    · rintro ⟨hexists, hmatch⟩ qtype
      have heq := eq_closestEncloser hzone hbase hmax (hmatch ⟨base, hbase⟩)
      dsimp only
      rw [expected, hexists, ← heq]
      split
      case isTrue h => cases h
      case isFalse =>
        split
        case h_1 hnil => exact absurd hnil hne
        case h_2 => rfl

/-- A name without records is answered as it should be, whatever its type, exactly if no policy
applies to it, it does not exist, and the wildcard at its closest encloser is there if any
matches. -/
theorem wildcard_semantics_iff (hzone : findZone snapshot.zones (normalizeName qname) = some zd)
    (hapex : normalizeName qname ≠ zd.apex) (hown : recordsAt zd (normalizeName qname) = []) :
    (∀ qtype, resolveIn snapshot qname qtype = expected snapshot zd (normalizeName qname) qtype) ↔
      rpzAction snapshot.rpz (normalizeName qname) = none ∧
      nameExists zd (normalizeName qname) = false ∧
      ((∃ base, Matches zd (normalizeName qname) base) →
        Matches zd (normalizeName qname) (closestEncloser zd (normalizeName qname))) := by
  cases hrpz : rpzAction snapshot.rpz (normalizeName qname) with
  | some rule =>
    refine ⟨fun h => ?_, fun h => nomatch h.1⟩
    have := congrArg Resolution.fromRpz (h .any)
    rw [fromRpz_expected, resolveIn, hrpz] at this
    cases this
  | none =>
    simp only [resolveIn_eq hrpz hzone, resolveInZone_of_absent hapex hown, true_and]
    exact expected_iff (under_apex hzone hapex)

section Sample

def address (name : String) : Record := ⟨none, "z", name, 300, .a, ∅, true⟩

def sampleZone (owners : List String) : ZoneData where
  zone := ⟨"z", "example.com", ⟨"ns.example.com", "admin.example.com", 1, 3600, 900, 604800, 86400⟩,
    true, .primary, none⟩
  records := owners.map address

def serving (owners : List String) : Snapshot := ⟨[sampleZone owners], []⟩

/-- A name above a record is denied, and a wildcard answers below it. -/
theorem empty_nonterminal_ignored :
    let owners := ["*.example.com", "x.b.example.com"]
    (resolveIn (serving ["x.b.example.com"]) "b.example.com" (.record .a)).rcode = .nxDomain ∧
      (expected (serving ["x.b.example.com"]) (sampleZone ["x.b.example.com"]) "b.example.com"
        (.record .a)).rcode = .noError ∧
      (resolveIn (serving owners) "y.b.example.com" (.record .a)).answers =
        [address "y.b.example.com"] ∧
      (expected (serving owners) (sampleZone owners) "y.b.example.com" (.record .a)).rcode =
        .nxDomain := by
  decide +kernel

theorem wildcard_semantics_sample :
    resolveIn (serving ["*.example.com"]) "Y.b.example.com." (.record .a) =
      expected (serving ["*.example.com"]) (sampleZone ["*.example.com"]) "y.b.example.com"
        (.record .a) := by
  have hname : normalizeName "Y.b.example.com." = "y.b.example.com" := by decide +kernel
  have hzone : findZone (serving ["*.example.com"]).zones (normalizeName "Y.b.example.com.") =
      some (sampleZone ["*.example.com"]) := by rw [hname]; rfl
  have h := wildcard_semantics_iff hzone (by rw [hname]; decide +kernel)
    (by rw [hname]; decide +kernel)
  rw [hname] at h
  exact h.mpr ⟨rfl, by decide +kernel, fun _ => ⟨by decide +kernel, by decide +kernel⟩⟩ (.record .a)

end Sample

end Magnetite.Dns.Resolver
