import Magnetite.Dns.Primary

/-!
# What a dynamic update does to a zone

Every update of a request is checked and carried out on its own, against the records that the zone
had before the first of them. So the additions and deletions that are carried out before one that is
rejected stay.
-/
namespace Magnetite.Dns

open Magnetite.Lib

variable {ν : Type}

/-- An update that finds the zone as it wants it. -/
def Idle (c : Codec ν) (existing : List Record) (up : UpdateRr ν) : Prop :=
  match up.rr.dnsClass with
  | .in => ∀ record, fromRr c up.rr = some record → existing.any (sameUpdateRr · record)
  | .any => ∀ r ∈ existing, norm r.name = norm (c.printName up.rr.name) →
      up.type.covers r.recordType = false
  | .none => ∀ record, fromRr c up.rr = some record → ∀ r ∈ existing, sameUpdateRr r record = false
  | .other => True

namespace UpdateRr

variable (c : Codec ν) (up : UpdateRr ν)

/-- The record of an addition. -/
def added : Option Record :=
  match up.rr.dnsClass with
  | .in => fromRr c up.rr
  | _ => none

/-- Whether a deletion is about a record. -/
def deletes (r : Record) : Bool :=
  match up.rr.dnsClass with
  | .any => norm r.name == norm (c.printName up.rr.name) && up.type.covers r.recordType
  | .none => (fromRr c up.rr).any (sameUpdateRr r)
  | _ => false

/-- Neither an addition that can be read nor a deletion. -/
def malformed : Bool :=
  match up.rr.dnsClass with
  | .in => (fromRr c up.rr).isNone
  | .other => true
  | _ => false

/-- What is added if the zone had the given records. -/
def creates (existing : List Record) : Option Record :=
  (up.added c).filter fun r => ! existing.any (sameUpdateRr · r)

/-- What is deleted if the zone had the given records. -/
def removes (existing : List Record) : List Record := existing.filter (up.deletes c)

/-- The code that stops the request, on a store with what was done before. -/
def rejection (zone : String) (existing : List Record) (d : ZoneDb) : Option ResponseCode :=
  if up.malformed c then some .formErr
  else if (up.creates c existing).any fun r =>
      Db.cnameConflicts (Db.recordsOf d zone) r.name r.recordType none then some .servFail
  else none

/-- The store after an update that is not rejected. -/
def applied (zone : String) (existing : List Record) (d : ZoneDb) : ZoneDb :=
  match up.creates c existing with
  | some r => d.create (r.inZone zone)
  | none => erasedAll d ((up.removes c existing).filterMap (·.id))

end UpdateRr

section

variable {c : Codec ν} {zone : String} {existing : List Record} {d : ZoneDb} {up : UpdateRr ν}

theorem UpdateRr.removes_of_added {r : Record} (h : up.added c = some r) :
    up.removes c existing = [] := by
  refine List.filter_eq_nil_iff.mpr fun s _ => ?_
  unfold added at h
  unfold deletes
  split at h
  · simp_all
  · cases h

/-- A deletion of all that match. -/
theorem total_deletion (p : Record → Bool) :
    Total (· = d) (do
        let r ← .attempt (deleteAll (existing.filter p))
        pure (codeOf r) : DbM (Option ResponseCode))
      fun code d' => code = none ∧ d' = erasedAll d ((existing.filter p).filterMap (·.id)) := by
  have hdelete : Total (· = d) (.attempt (deleteAll (existing.filter p))) fun r d' =>
      r = .ok () ∧ d' = erasedAll d ((existing.filter p).filterMap (·.id)) :=
    Total.attempt ((total_deleteAll d _).consequence (fun _ h => h) fun _ _ h => ⟨rfl, h⟩)
  refine hdelete.bind fun r => Total.pure ?_
  rintro _ ⟨rfl, h⟩
  exact ⟨rfl, h⟩

theorem total_addition (r : Record) :
    Total (· = d) (do
        let r ← .attempt (Db.createRecord (r.inZone zone))
        pure (codeOf r) : DbM (Option ResponseCode))
      fun code d' =>
        if Db.cnameConflicts (Db.recordsOf d zone) r.name r.recordType none then
          code = some .servFail ∧ d' = d
        else code = none ∧ d' = d.create (r.inZone zone) := by
  have hcreate : Total (· = d) (.attempt (Db.createRecord (r.inZone zone))) fun res d' =>
      if Db.cnameConflicts (Db.recordsOf d zone) r.name r.recordType none then
        codeOf res = some .servFail ∧ d' = d
      else codeOf res = none ∧ d' = d.create (r.inZone zone) := by
    refine (outcome_createRecord d (r.inZone zone)).attempt.consequence (fun _ h => h) ?_
    rintro res d' ⟨hconflict, hres⟩
    rw [show Db.cnameConflicts (Db.recordsOf d zone) r.name r.recordType none = _ from hconflict]
    cases res with
    | ok created => exact ⟨rfl, hres.2⟩
    | error e => exact ⟨rfl, hres⟩
  exact hcreate.bind fun res => Total.pure fun _ h => h

/-- One update is rejected and leaves the store alone, or is carried out. -/
theorem total_applyOne (c : Codec ν) (zone : String) (existing : List Record) (d : ZoneDb)
    (up : UpdateRr ν) :
    Total (· = d) (applyOne c zone existing up) fun code d' =>
      code = up.rejection c zone existing d ∧
        d' = if code.isSome then d else up.applied c zone existing d := by
  unfold applyOne
  cases hclass : up.rr.dnsClass with
  | «in» =>
    cases hrr : fromRr c up.rr with
    | none =>
      refine Total.pure fun _ h => ?_
      simp [UpdateRr.rejection, UpdateRr.malformed, hclass, hrr, h]
    | some r =>
      have hadded : up.added c = some r := by simp [UpdateRr.added, hclass, hrr]
      dsimp only
      split
      case isTrue hsome =>
        refine Total.pure fun _ h => ?_
        have hcreates : up.creates c existing = none := by
          rw [UpdateRr.creates, hadded, Option.filter_some, hsome]
          rfl
        have hremoves : up.removes c existing = [] := UpdateRr.removes_of_added hadded
        simp [UpdateRr.rejection, UpdateRr.malformed, UpdateRr.applied, hclass, hrr, h, hcreates,
          hremoves, erasedAll]
      case isFalse hnone =>
        have hcreates : up.creates c existing = some r := by
          rw [UpdateRr.creates, hadded, Option.filter_some, Bool.eq_false_iff.mpr hnone]
          rfl
        refine (total_addition r).consequence (fun _ h => h) fun code d' h => ?_
        simp only [UpdateRr.rejection, UpdateRr.malformed, UpdateRr.applied, hclass, hrr, hcreates,
          Option.isNone_some, Option.any_some, Bool.false_eq_true, if_false]
        split at h
        case isTrue hc => simp [hc, h.1, h.2]
        case isFalse hc => simp [hc, h.1, h.2]
  | any =>
    refine (total_deletion _).consequence (fun _ h => h) fun code d' h => ?_
    have hremoves : up.removes c existing = existing.filter fun r =>
        norm r.name == norm (c.printName up.rr.name) && up.type.covers r.recordType :=
      List.filter_congr fun r _ => by simp [UpdateRr.deletes, hclass]
    simp [UpdateRr.rejection, UpdateRr.malformed, UpdateRr.applied, UpdateRr.creates,
      UpdateRr.added, hclass, h.1, h.2, hremoves]
  | none =>
    have hcreates : up.creates c existing = none := by
      simp [UpdateRr.creates, UpdateRr.added, hclass]
    cases hrr : fromRr c up.rr with
    | none =>
      refine Total.pure fun _ h => ?_
      have hremoves : up.removes c existing = [] := by
        simp [UpdateRr.removes, UpdateRr.deletes, hclass, hrr]
      simp [UpdateRr.rejection, UpdateRr.malformed, UpdateRr.applied, hclass, hcreates, hremoves, h,
        erasedAll]
    | some r =>
      refine (total_deletion _).consequence (fun _ h => h) fun code d' h => ?_
      have hremoves : up.removes c existing = existing.filter (sameUpdateRr · r) :=
        List.filter_congr fun r _ => by simp [UpdateRr.deletes, hclass, hrr]
      simp [UpdateRr.rejection, UpdateRr.malformed, UpdateRr.applied, hclass, hcreates, hremoves,
        h.1, h.2]
  | other =>
    refine Total.pure fun _ h => ?_
    simp [UpdateRr.rejection, UpdateRr.malformed, hclass, h]

/-! ### A list of updates -/

/-- The updates are carried out up to the first that is rejected. -/
def outcomeOf (c : Codec ν) (zone : String) (existing : List Record) (d : ZoneDb) :
    List (UpdateRr ν) → ResponseCode × ZoneDb
  | [] => (.noError, d)
  | up :: rest =>
    match up.rejection c zone existing d with
    | some code => (code, d)
    | none => outcomeOf c zone existing (up.applied c zone existing d) rest

theorem total_applyUpdates (c : Codec ν) (zone : String) (existing : List Record) (d : ZoneDb)
    (updates : List (UpdateRr ν)) :
    Total (· = d) (applyUpdates c zone existing updates) fun code d' =>
      (code, d') = outcomeOf c zone existing d updates := by
  induction updates generalizing d with
  | nil => exact Total.pure fun _ h => by rw [h]; rfl
  | cons up rest ih =>
    refine (total_applyOne c zone existing d up).bind fun code => ⟨?_⟩
    rintro clock s hf ⟨hcode, hd⟩
    cases code with
    | some code =>
      refine ⟨code, s, rfl, hf, ?_⟩
      rw [outcomeOf, ← hcode]
      exact congrArg (code, ·) hd
    | none =>
      obtain ⟨code, t, ht, htf, heq⟩ := (ih (up.applied c zone existing d)).run clock s hf hd
      refine ⟨code, t, ht, htf, ?_⟩
      rw [heq, outcomeOf, ← hcode]

/-- Every update is carried out. -/
def Accepts (c : Codec ν) (zone : String) (existing : List Record) (d : ZoneDb) :
    List (UpdateRr ν) → Prop
  | [] => True
  | up :: rest => up.rejection c zone existing d = none ∧
      Accepts c zone existing (up.applied c zone existing d) rest

/-- The store after updates that are all carried out. -/
def appliedAll (c : Codec ν) (zone : String) (existing : List Record) (d : ZoneDb)
    (updates : List (UpdateRr ν)) : ZoneDb :=
  updates.foldl (fun d up => up.applied c zone existing d) d

/-- The updates before the first that is rejected are carried out, and nothing else. -/
theorem outcomeOf_cases (c : Codec ν) (zone : String) (existing : List Record) (d : ZoneDb)
    (updates : List (UpdateRr ν)) :
    (Accepts c zone existing d updates ∧
      outcomeOf c zone existing d updates = (.noError, appliedAll c zone existing d updates)) ∨
    ∃ before up after code, updates = before ++ up :: after ∧ Accepts c zone existing d before ∧
      up.rejection c zone existing (appliedAll c zone existing d before) = some code ∧
      outcomeOf c zone existing d updates = (code, appliedAll c zone existing d before) := by
  induction updates generalizing d with
  | nil => exact .inl ⟨trivial, rfl⟩
  | cons up rest ih =>
    cases hcode : up.rejection c zone existing d with
    | some code =>
      refine .inr ⟨[], up, rest, code, rfl, trivial, hcode, ?_⟩
      rw [outcomeOf, hcode]
      rfl
    | none =>
      have hnext : outcomeOf c zone existing d (up :: rest) =
          outcomeOf c zone existing (up.applied c zone existing d) rest := by
        rw [outcomeOf, hcode]
      obtain ⟨haccepts, heq⟩ | ⟨before, up', after, code, rfl, haccepts, hrej, heq⟩ :=
        ih (up.applied c zone existing d)
      · exact .inl ⟨⟨hcode, haccepts⟩, hnext.trans heq⟩
      · exact .inr ⟨up :: before, up', after, code, rfl, ⟨hcode, haccepts⟩, hrej, hnext.trans heq⟩

theorem rejection_ne_noError {code : ResponseCode} (h : up.rejection c zone existing d = some code) :
    code ≠ .noError := by
  unfold UpdateRr.rejection at h
  split at h
  · cases h; decide
  · split at h
    · cases h; decide
    · cases h

/-! ### What all of them together do -/

theorem erasedAll_create {ids : List ℕ} (r : Record) (h : ∀ k ∈ ids, k < d.records.next) :
    erasedAll (d.create r) ids = (erasedAll d ids).create r := by
  have hrest := erasedAll_rest (d.create r) ids
  have hrest' := erasedAll_rest d ids
  have hrecords : (erasedAll (d.create r) ids).records = ((erasedAll d ids).create r).records := by
    refine RecordTable.eq_of_getElem? ?_ fun k => ?_
    · rw [hrest.2.2]
      exact congrArg (· + 1) hrest'.2.2.symm
    · rw [getElem?_erasedAll, ZoneDb.getElem?_create, ZoneDb.getElem?_create, getElem?_erasedAll,
        hrest'.2.2]
      by_cases hk : k ∈ ids
      · have := h k hk
        simp [hk, Nat.ne_of_gt this]
      · simp [hk]
  have hzones : (erasedAll (d.create r) ids).zones = ((erasedAll d ids).create r).zones :=
    hrest.1.trans hrest'.1.symm
  have hjournal : (erasedAll (d.create r) ids).journal = ((erasedAll d ids).create r).journal :=
    hrest.2.1.trans hrest'.2.1.symm
  cases hd : erasedAll (d.create r) ids
  cases hd' : (erasedAll d ids).create r
  simp_all

/-- The keys that some update removes. -/
def removedIds (c : Codec ν) (existing : List Record) (updates : List (UpdateRr ν)) : List ℕ :=
  updates.flatMap fun up => (up.removes c existing).filterMap (·.id)

/-- The records that some update creates. -/
def created (c : Codec ν) (zone : String) (existing : List Record) (updates : List (UpdateRr ν)) :
    List Record :=
  (updates.filterMap (·.creates c existing)).map (·.inZone zone)

/-- What is deleted was there before, so the order of deletions and additions does not matter. -/
theorem appliedAll_eq (h : ∀ r ∈ existing, ∀ k, r.id = some k → k < d.records.next)
    (updates : List (UpdateRr ν)) :
    appliedAll c zone existing d updates =
      (created c zone existing updates).foldl ZoneDb.create
        (erasedAll d (removedIds c existing updates)) := by
  have hids (ups : List (UpdateRr ν)) : ∀ k ∈ removedIds c existing ups, k < d.records.next := by
    intro k hk
    obtain ⟨up, -, hk⟩ := List.mem_flatMap.mp hk
    obtain ⟨r, hr, hid⟩ := List.mem_filterMap.mp hk
    exact h r (List.mem_of_mem_filter hr) k hid
  induction updates generalizing d with
  | nil => rfl
  | cons up rest ih =>
    rw [appliedAll, List.foldl_cons, ← appliedAll]
    cases hcreates : up.creates c existing with
    | some r =>
      have hremoves : up.removes c existing = [] := by
        obtain ⟨hadded, -⟩ := Option.filter_eq_some_iff.mp hcreates
        exact UpdateRr.removes_of_added hadded
      have hlt : ∀ r ∈ existing, ∀ k, r.id = some k → k < d.records.next + 1 :=
        fun r hr k hk => (h r hr k hk).trans (Nat.lt_succ_self _)
      rw [UpdateRr.applied, hcreates]
      dsimp only
      rw [ih hlt fun ups k hk => (hids ups k hk).trans (Nat.lt_succ_self _),
        erasedAll_create _ (hids rest)]
      simp [created, removedIds, hcreates, hremoves]
    | none =>
      have hnext := (erasedAll_rest d ((up.removes c existing).filterMap (·.id))).2.2
      rw [UpdateRr.applied, hcreates]
      dsimp only
      rw [ih (by rw [hnext]; exact h) (by rw [hnext]; exact hids)]
      simp [created, removedIds, hcreates, erasedAll, List.foldl_append]

/-! ### What the zone holds afterwards -/

theorem nodup_recordsOf (d : ZoneDb) (zone : String) : (Db.recordsOf d zone).Nodup := by
  refine List.Nodup.filter _ ?_
  unfold RecordTable.list
  refine List.Pairwise.map _ ?_ (Std.ExtTreeMap.distinct_keys_toList)
  rintro ⟨k, r⟩ ⟨k', r'⟩ hne heq
  have : some k = some k' := congrArg Record.id heq
  simp_all

theorem perm_recordsOf_create (d : ZoneDb) (r : Record) :
    (Db.recordsOf (d.create r) r.zone).Perm
      ({ Db.toRow r with id := some d.records.next } :: Db.recordsOf d r.zone) := by
  have hfresh : { Db.toRow r with id := some d.records.next } ∉ Db.recordsOf d r.zone := by
    intro h
    obtain ⟨k, row, hrow, -, heq⟩ := ZoneDb.mem_recordsOf.mp h
    cases Option.some.inj (congrArg Record.id heq)
    rw [ZoneDb.getElem?_next] at hrow
    cases hrow
  refine (List.perm_ext_iff_of_nodup (nodup_recordsOf _ _)
    (List.nodup_cons.mpr ⟨hfresh, nodup_recordsOf _ _⟩)).mpr fun x => ?_
  simp only [List.mem_cons, ZoneDb.mem_recordsOf, ZoneDb.getElem?_create]
  constructor
  · rintro ⟨k, row, hrow, hzone, rfl⟩
    split at hrow
    case isTrue hk =>
      cases hrow
      exact .inl (by rw [hk])
    case isFalse => exact .inr ⟨k, row, hrow, hzone, rfl⟩
  · rintro (rfl | ⟨k, row, hrow, hzone, rfl⟩)
    · exact ⟨_, _, if_pos rfl, rfl, rfl⟩
    · refine ⟨k, row, ?_, hzone, rfl⟩
      rw [if_neg, hrow]
      rintro rfl
      rw [ZoneDb.getElem?_next] at hrow
      cases hrow

theorem perm_rows_foldl_create (d : ZoneDb) {rs : List Record} (h : ∀ r ∈ rs, r.zone = zone) :
    ((Db.recordsOf (rs.foldl ZoneDb.create d) zone).map Record.row).Perm
      ((Db.recordsOf d zone).map Record.row ++ rs.map Db.toRow) := by
  induction rs generalizing d with
  | nil => simp
  | cons r rs ih =>
    obtain rfl := h r List.mem_cons_self
    refine (ih (d.create r) fun x hx => h x (List.mem_cons_of_mem _ hx)).trans ?_
    refine (((perm_recordsOf_create d r).map Record.row).append_right _).trans ?_
    rw [List.map_cons, List.map_cons]
    exact List.perm_middle.symm

theorem perm_recordsOf_erasedAll (d : ZoneDb) (ids : List ℕ) (zone : String) :
    (Db.recordsOf (erasedAll d ids) zone).Perm
      ((Db.recordsOf d zone).filter fun r => ! r.id.any (· ∈ ids)) := by
  refine (List.perm_ext_iff_of_nodup (nodup_recordsOf _ _) ((nodup_recordsOf _ _).filter _)).mpr ?_
  intro r
  simp only [List.mem_filter, ZoneDb.mem_recordsOf, getElem?_erasedAll]
  constructor
  · rintro ⟨k, row, hrow, hzone, rfl⟩
    split at hrow
    case isTrue => cases hrow
    case isFalse hk => exact ⟨⟨k, row, hrow, hzone, rfl⟩, by simp [hk]⟩
  · rintro ⟨⟨k, row, hrow, hzone, rfl⟩, hk⟩
    have hk : k ∉ ids := by simpa using hk
    exact ⟨k, row, by rw [if_neg hk, hrow], hzone, rfl⟩

/-- The records that are there after some updates, if the zone had the given ones. -/
def left (c : Codec ν) (zone : String) (existing : List Record) (updates : List (UpdateRr ν)) :
    List Record :=
  (existing.filter fun r => updates.all fun up => ! up.deletes c r) ++
    (created c zone existing updates).map Db.toRow

/-- A record of the zone is deleted under its key by an update that is about it. -/
theorem mem_removedIds {k : ℕ} {row : Record} (hrow : d.records.rows[k]? = some row)
    (hzone : row.zone = zone) (updates : List (UpdateRr ν)) :
    k ∈ removedIds c (Db.recordsOf d zone) updates ↔
      ∃ up ∈ updates, up.deletes c { row with id := some k } := by
  simp only [removedIds, List.mem_flatMap, UpdateRr.removes, mem_picked]
  constructor
  · rintro ⟨up, hup, row', hrow', -, hdel⟩
    cases hrow.symm.trans hrow'
    exact ⟨up, hup, hdel⟩
  · rintro ⟨up, hup, hdel⟩
    exact ⟨up, hup, row, hrow, hzone, hdel⟩

theorem lt_next_of_mem {r : Record} (h : r ∈ Db.recordsOf d zone) {k : ℕ} (hk : r.id = some k) :
    k < d.records.next := by
  obtain ⟨k', row, hrow, -, rfl⟩ := ZoneDb.mem_recordsOf.mp h
  cases hk
  exact d.records.fresh k (Std.ExtTreeMap.mem_iff_isSome_getElem?.mpr (hrow ▸ rfl))

theorem perm_rows_appliedAll (zone : String) (d : ZoneDb) (updates : List (UpdateRr ν)) :
    ((Db.recordsOf (appliedAll c zone (Db.recordsOf d zone) d updates) zone).map Record.row).Perm
      ((left c zone (Db.recordsOf d zone) updates).map Record.row) := by
  rw [appliedAll_eq fun r hr k hk => lt_next_of_mem hr hk]
  have hzone : ∀ r ∈ created c zone (Db.recordsOf d zone) updates, r.zone = zone := by
    intro r hr
    obtain ⟨x, -, rfl⟩ := List.mem_map.mp hr
    rfl
  refine (perm_rows_foldl_create _ hzone).trans ?_
  have hfilter : ((Db.recordsOf d zone).filter fun r =>
      ! r.id.any (· ∈ removedIds c (Db.recordsOf d zone) updates)) =
        (Db.recordsOf d zone).filter fun r => updates.all fun up => ! up.deletes c r := by
    refine List.filter_congr fun r hr => ?_
    obtain ⟨k, row, hrow, hzone, rfl⟩ := ZoneDb.mem_recordsOf.mp hr
    have := mem_removedIds (c := c) hrow hzone updates
    rw [Bool.eq_iff_iff]
    simp [this]
  rw [left, List.map_append, List.map_map, ← hfilter]
  exact ((perm_recordsOf_erasedAll d _ zone).map Record.row).append_right _

theorem cnameConflicts_rows (records : List Record) (name : String) (recordType : RecordType) :
    Db.cnameConflicts records name recordType none =
      (records.map Record.row).any fun r => normalizeName r.name == normalizeName name &&
        (recordType == .cname || r.recordType == .cname) := by
  simp [Db.cnameConflicts, List.any_filter, List.any_map, Function.comp_def, Record.row]

theorem cnameConflicts_congr {records records' : List Record}
    (h : (records.map Record.row).Perm (records'.map Record.row)) (name : String)
    (recordType : RecordType) :
    Db.cnameConflicts records name recordType none =
      Db.cnameConflicts records' name recordType none := by
  rw [cnameConflicts_rows, cnameConflicts_rows, h.any_eq]

/-- An update after some others is rejected. -/
def Stops (c : Codec ν) (zone : String) (existing : List Record) (before : List (UpdateRr ν))
    (up : UpdateRr ν) : Prop :=
  up.malformed c ∨ (up.creates c existing).any fun r =>
    Db.cnameConflicts (left c zone existing before) r.name r.recordType none

theorem isSome_rejection (before : List (UpdateRr ν)) (up : UpdateRr ν) :
    (up.rejection c zone (Db.recordsOf d zone)
        (appliedAll c zone (Db.recordsOf d zone) d before)).isSome ↔
      Stops c zone (Db.recordsOf d zone) before up := by
  have hconflict : ((up.creates c (Db.recordsOf d zone)).any fun r => Db.cnameConflicts
      (Db.recordsOf (appliedAll c zone (Db.recordsOf d zone) d before) zone) r.name r.recordType
        none) = (up.creates c (Db.recordsOf d zone)).any fun r =>
      Db.cnameConflicts (left c zone (Db.recordsOf d zone) before) r.name r.recordType none := by
    congr 1
    funext r
    exact cnameConflicts_congr (perm_rows_appliedAll zone d before) _ _
  unfold UpdateRr.rejection Stops
  rw [hconflict]
  by_cases hm : up.malformed c
  · simp [hm]
  · simp [hm]

/-! ### A request -/

/-- The request comes to its updates, which are about the zone. -/
structure Reaches (c : Codec ν) (request : UpdateMessage ν) (d : ZoneDb) (y : Zone) : Prop where
  found : ∃ name, request.zone = some name ∧
    (d.zones.toList.map (·.2)).find? (norm ·.name == norm (c.printName name)) = some y ∧
    request.updates.all fun up => inZone (norm (c.printName up.rr.name)) (norm (c.printName name))
  prerequisites : request.prerequisites.forM (checkPrerequisite c (Db.recordsOf d y.id)) = .ok ()

theorem Reaches.unique {request : UpdateMessage ν} {y y' : Zone} (h : Reaches c request d y)
    (h' : Reaches c request d y') : y = y' := by
  obtain ⟨name, hname, hfind, -⟩ := h.found
  obtain ⟨name', hname', hfind', -⟩ := h'.found
  cases hname.symm.trans hname'
  exact Option.some.inj (hfind.symm.trans hfind')

theorem checkPrerequisite_ne_noError (pre : UpdateRr ν) :
    checkPrerequisite c existing pre ≠ .error .noError := by
  have hensure (b : Bool) (code : ResponseCode) (h : code ≠ .noError) :
      ensure b code ≠ .error .noError := by
    cases b with
    | false => exact fun heq => h (Except.error.inj heq)
    | true => exact nofun
  unfold checkPrerequisite
  dsimp only
  repeat' split
  all_goals first | exact hensure _ _ nofun | exact nofun

theorem prerequisites_ne_noError (pres : List (UpdateRr ν)) :
    pres.forM (checkPrerequisite c existing) ≠ .error .noError := by
  induction pres with
  | nil => exact nofun
  | cons pre rest ih =>
    intro h
    rw [List.forM_eq_forM, List.forM_cons] at h
    cases hpre : checkPrerequisite c existing pre with
    | error code =>
      rw [hpre] at h
      cases h
      exact checkPrerequisite_ne_noError pre hpre
    | ok _ =>
      rw [hpre] at h
      exact ih h

/-- A request comes to its updates, or is refused and nothing happens. -/
theorem total_handleUpdate (c : Codec ν) (request : UpdateMessage ν) (d : ZoneDb) :
    Total (· = d) (handleUpdate c request) fun code d' =>
      (∃ y, Reaches c request d y ∧
        (code, d') = outcomeOf c y.id (Db.recordsOf d y.id) d request.updates) ∨
      (∀ y, ¬ Reaches c request d y) ∧ code ≠ .noError ∧ d' = d := by
  have hrefused (code : ResponseCode) (hcode : code ≠ .noError)
      (hnot : ∀ y, ¬ Reaches c request d y) : Total (· = d) (pure code : DbM ResponseCode)
        fun code d' =>
          (∃ y, Reaches c request d y ∧
            (code, d') = outcomeOf c y.id (Db.recordsOf d y.id) d request.updates) ∨
          (∀ y, ¬ Reaches c request d y) ∧ code ≠ .noError ∧ d' = d :=
    Total.pure fun _ h => .inr ⟨hnot, hcode, h⟩
  unfold handleUpdate findZone Db.listRecords
  cases hzone : request.zone with
  | none =>
    refine hrefused _ nofun fun y h => ?_
    obtain ⟨name, hname, -⟩ := h.found
    cases hzone.symm.trans hname
  | some name =>
    refine Total.attemptReadThen ?_
    split
    case h_1 heq => cases heq
    case h_2 heq =>
      refine hrefused _ nofun fun y h => ?_
      obtain ⟨name', hname, hfind, -⟩ := h.found
      cases hzone.symm.trans hname
      cases hfind.symm.trans (Except.ok.inj heq)
    case h_3 y heq =>
      have hy (y' : Zone) (h : Reaches c request d y') : y' = y := by
        obtain ⟨name', hname, hfind, -⟩ := h.found
        cases hzone.symm.trans hname
        exact Option.some.inj (hfind.symm.trans (Except.ok.inj heq))
      refine Total.attemptReadThen ?_
      dsimp only
      split
      case h_1 code hpre =>
        refine hrefused _ (fun h => prerequisites_ne_noError _ (h ▸ hpre)) fun y' h => ?_
        cases hy y' h
        cases h.prerequisites.symm.trans hpre
      case h_2 hpre =>
        split
        case isTrue hin =>
          refine (total_applyUpdates c y.id _ d _).consequence (fun _ h => h) fun code d' h => ?_
          exact .inl ⟨y, ⟨⟨name, hzone, Except.ok.inj heq, hin⟩, hpre⟩, h⟩
        case isFalse hin =>
          refine hrefused _ nofun fun y' h => ?_
          obtain ⟨name', hname, -, hall⟩ := h.found
          cases hzone.symm.trans hname
          exact hin hall

/-! ### Requests that fail -/

theorem idle_iff : Idle c existing up ↔ up.creates c existing = none ∧
    up.removes c existing = [] := by
  unfold Idle UpdateRr.creates UpdateRr.removes UpdateRr.added UpdateRr.deletes
  cases hclass : up.rr.dnsClass with
  | «in» => cases hrr : fromRr c up.rr <;> simp [Option.filter_some]
  | any => simp [List.filter_eq_nil_iff]
  | none => cases hrr : fromRr c up.rr <;> simp [List.filter_eq_nil_iff]
  | other => simp

theorem getElem?_foldl_create {k : ℕ} (hk : k < d.records.next) (rs : List Record) :
    (rs.foldl ZoneDb.create d).records.rows[k]? = d.records.rows[k]? := by
  induction rs generalizing d with
  | nil => rfl
  | cons r rs ih =>
    rw [List.foldl_cons, ih (hk.trans (Nat.lt_succ_self _)), ZoneDb.getElem?_create,
      if_neg (Nat.ne_of_gt hk)]

theorem appliedAll_of_idle {updates : List (UpdateRr ν)} (h : ∀ up ∈ updates, Idle c existing up) :
    appliedAll c zone existing d updates = d := by
  induction updates with
  | nil => rfl
  | cons up rest ih =>
    obtain ⟨hcreates, hremoves⟩ := idle_iff.mp (h up List.mem_cons_self)
    have hsame : up.applied c zone existing d = d := by
      simp [UpdateRr.applied, hcreates, hremoves, erasedAll]
    rw [appliedAll, List.foldl_cons, hsame]
    exact ih fun up hup => h up (List.mem_cons_of_mem _ hup)

/-- What an update does cannot be undone by another one of the same request. -/
theorem idle_of_unchanged {updates : List (UpdateRr ν)}
    (h : Db.recordsOf (appliedAll c zone (Db.recordsOf d zone) d updates) zone =
      Db.recordsOf d zone) : ∀ up ∈ updates, Idle c (Db.recordsOf d zone) up := by
  intro up hup
  rw [appliedAll_eq fun r hr k hk => lt_next_of_mem hr hk] at h
  refine idle_iff.mpr ⟨?_, List.eq_nil_iff_forall_not_mem.mpr fun r hr => ?_⟩
  · by_contra hcreates
    obtain ⟨r, hcreates⟩ := Option.ne_none_iff_exists'.mp hcreates
    -- the first record that is created stands under a new key
    have hmem : r.inZone zone ∈ created c zone (Db.recordsOf d zone) updates :=
      List.mem_map_of_mem (List.mem_filterMap.mpr ⟨up, hup, hcreates⟩)
    obtain ⟨x, rs, hcons⟩ := List.exists_cons_of_ne_nil (List.ne_nil_of_mem hmem)
    have hx : x.zone = zone := by
      obtain ⟨y, -, rfl⟩ := List.mem_map.mp (hcons ▸ List.mem_cons_self)
      rfl
    have hnew : { Db.toRow x with id := some d.records.next } ∈ Db.recordsOf d zone := by
      rw [← h, hcons, List.foldl_cons, ZoneDb.mem_recordsOf]
      have hnext := (erasedAll_rest d (removedIds c (Db.recordsOf d zone) updates)).2.2
      refine ⟨d.records.next, Db.toRow x, ?_, hx, rfl⟩
      rw [getElem?_foldl_create (by rw [← hnext]; exact Nat.lt_succ_self _), ZoneDb.getElem?_create,
        if_pos hnext]
    exact lt_irrefl _ (lt_next_of_mem hnew rfl)
  · have hr' := List.mem_of_mem_filter hr
    obtain ⟨k, row, hrow, hzone, rfl⟩ := ZoneDb.mem_recordsOf.mp hr'
    have hremoved : k ∈ removedIds c (Db.recordsOf d zone) updates :=
      (mem_removedIds hrow hzone updates).mpr ⟨up, hup, (List.mem_filter.mp hr).2⟩
    rw [← h] at hr'
    obtain ⟨k', row', hrow', -, heq⟩ := ZoneDb.mem_recordsOf.mp hr'
    cases Option.some.inj (congrArg Record.id heq)
    rw [getElem?_foldl_create (by
      rw [(erasedAll_rest d _).2.2]
      exact d.records.fresh k (Std.ExtTreeMap.mem_iff_isSome_getElem?.mpr (hrow ▸ rfl))),
      getElem?_erasedAll, if_pos hremoved] at hrow'
    cases hrow'

theorem Accepts.rejection {before after : List (UpdateRr ν)}
    (h : Accepts c zone existing d (before ++ up :: after)) :
    up.rejection c zone existing (appliedAll c zone existing d before) = none := by
  induction before generalizing d with
  | nil => exact h.1
  | cons b rest ih => exact ih h.2

/-- No update is rejected, or one is with only such before it that find the zone as they want it. -/
def StopsEarly (c : Codec ν) (zone : String) (existing : List Record) (updates : List (UpdateRr ν)) :
    Prop :=
  (∀ before up after, updates = before ++ up :: after → ¬ Stops c zone existing before up) ∨
    ∃ before up after, updates = before ++ up :: after ∧ Stops c zone existing before up ∧
      ∀ b ∈ before, Idle c existing b

theorem outcomeOf_unchanged_iff (d : ZoneDb) (zone : String) (updates : List (UpdateRr ν)) :
    ((outcomeOf c zone (Db.recordsOf d zone) d updates).1 ≠ .noError →
      ∀ id, Db.recordsOf (outcomeOf c zone (Db.recordsOf d zone) d updates).2 id =
        Db.recordsOf d id) ↔ StopsEarly c zone (Db.recordsOf d zone) updates := by
  obtain ⟨haccepts, heq⟩ | ⟨before, up, after, code, rfl, haccepts, hrej, heq⟩ :=
    outcomeOf_cases c zone (Db.recordsOf d zone) d updates
  · rw [heq]
    refine ⟨fun _ => .inl ?_, fun _ h => absurd rfl h⟩
    rintro before up after rfl hstops
    rw [← isSome_rejection, haccepts.rejection] at hstops
    cases hstops
  · have hstops := (isSome_rejection before up).mp (Option.isSome_of_eq_some hrej)
    rw [heq]
    constructor
    · intro h
      have hsame := h (rejection_ne_noError hrej) zone
      exact .inr ⟨before, up, after, rfl, hstops, idle_of_unchanged hsame⟩
    · rintro (h | ⟨before', up', after', hsplit, hstops', hidle⟩) - id
      · exact absurd hstops (h before up after rfl)
      · obtain ⟨between, rfl, -⟩ | ⟨between, rfl, hbetween⟩ := List.append_eq_append_iff.mp hsplit
        · rw [appliedAll_of_idle fun b hb => hidle b (List.mem_append_left _ hb)]
        · cases between with
          | nil =>
            rw [List.append_nil, appliedAll_of_idle hidle]
          | cons b rest =>
            cases hbetween
            rw [← isSome_rejection, haccepts.rejection] at hstops'
            cases hstops'

/-- Where no call of the database fails, a request that is not answered with success leaves the
records of every zone as they were exactly when the rejected update, if the request comes to one,
is preceded only by updates that change nothing: what went before a rejection is not taken back. -/
theorem update_unchanged_iff (c : Codec ν) (request : UpdateMessage ν) (clock : ℕ → ℕ)
    (s : Session ZoneDb) (hf : s.faults = []) :
    ((handleUpdate c request clock s).1 ≠ .ok .noError → ∀ zone,
      Db.recordsOf (handleUpdate c request clock s).2.db zone = Db.recordsOf s.db zone) ↔
    ∀ y, Reaches c request s.db y →
      StopsEarly c y.id (Db.recordsOf s.db y.id) request.updates := by
  obtain ⟨code, t, hrun, -, h⟩ := (total_handleUpdate c request s.db).run clock s hf rfl
  rw [hrun]
  obtain ⟨y, hy, heq⟩ | ⟨hnot, -, hd⟩ := h
  · have hunique : (∀ y', Reaches c request s.db y' →
        StopsEarly c y'.id (Db.recordsOf s.db y'.id) request.updates) ↔
        StopsEarly c y.id (Db.recordsOf s.db y.id) request.updates :=
      ⟨fun h => h y hy, fun h y' hy' => hy.unique hy' ▸ h⟩
    rw [hunique, ← outcomeOf_unchanged_iff, ← heq]
    simp
  · exact ⟨fun _ y hy => absurd hy (hnot y), fun _ _ zone => by rw [hd]⟩

end

section Sample

/-- A primary zone with one record. -/
def primaryDb : ZoneDb :=
  { copyDb with
    zones := (∅ : Std.ExtTreeMap String Zone).insert "z" { copyZone with role := .primary } }

def noteUpdate (text : String) (dnsClass : DnsClass) : UpdateRr String :=
  ⟨⟨"example.com", dnsClass, 300, .txt [text]⟩, .core .txt⟩

def updating (updates : List (UpdateRr String)) : UpdateMessage String :=
  ⟨some "example.com", [], updates⟩

/-- The addition stays although the request is answered with an error. -/
theorem update_half_applied :
    (handleUpdate plainCodec (updating [noteUpdate "new" .in, noteUpdate "new" .other]) id
        ⟨primaryDb, [], 0⟩).1 = .ok .formErr ∧
      Db.recordsOf (handleUpdate plainCodec
          (updating [noteUpdate "new" .in, noteUpdate "new" .other]) id ⟨primaryDb, [], 0⟩).2.db "z" ≠
        Db.recordsOf primaryDb "z" := by
  decide +kernel

theorem update_unchanged_sample :
    (handleUpdate plainCodec (updating [noteUpdate "new" .other, noteUpdate "new" .in]) id
        ⟨primaryDb, [], 0⟩).1 ≠ .ok .noError ∧
      ∀ zone, Db.recordsOf (handleUpdate plainCodec
          (updating [noteUpdate "new" .other, noteUpdate "new" .in]) id
            ⟨primaryDb, [], 0⟩).2.db zone =
        Db.recordsOf primaryDb zone := by
  have hcode : (handleUpdate plainCodec (updating [noteUpdate "new" .other, noteUpdate "new" .in]) id
      ⟨primaryDb, [], 0⟩).1 ≠ .ok .noError := by decide +kernel
  refine ⟨hcode, (update_unchanged_iff plainCodec _ id ⟨primaryDb, [], 0⟩ rfl).mpr ?_ hcode⟩
  intro y _
  exact .inr ⟨[], _, _, rfl, .inl rfl, by simp⟩

end Sample

end Magnetite.Dns
