import Magnetite.Lib.System
import Magnetite.Dns.Refresh
import Magnetite.Dns.Writers

/-!
# Edits of a zone

What single writes do to the rows of a zone and to its journal.
-/
namespace Magnetite.Dns

open Magnetite.Lib

variable {ν : Type} {c : Codec ν} {source : String}

/-- The changes of a zone in the order in which they were appended. -/
def changesOf (d : ZoneDb) (zone : String) : List ZoneChange :=
  (d.journal.filter (·.1 == zone)).map (·.2)

/-- The zone with the next serial. -/
def Zone.bumped (z : Zone) : Zone :=
  { z with soa := { z.soa with serial := Db.nextSerial z.soa.serial } }

/-! ### The serial and the journal -/

/-- The store after a zone's serial went up and a change was appended. -/
def journaled (d : ZoneDb) (zone : String) (z : Zone) (added removed : List Record) : ZoneDb :=
  { d with
    zones := d.zones.modify zone fun y => { y with soa := z.bumped.soa }
    journal := d.journal ++ [(zone, ⟨Db.nextSerial z.soa.serial, added, removed⟩)] }

theorem total_bumpZoneSerial {d : ZoneDb} {zone : String} {z : Zone}
    (hz : d.zones[zone]? = some z) :
    Total (· = d) (Db.bumpZoneSerial zone) fun serial d' =>
      serial = some (Db.nextSerial z.soa.serial) ∧
        d' = { d with zones := d.zones.modify zone fun y => { y with soa := z.bumped.soa } } := by
  unfold Db.bumpZoneSerial Db.getZone
  refine Total.readThen ?_
  rw [hz]
  exact (Db.total_updateZone d zone _).bind fun _ => Total.pure fun _ h => ⟨rfl, h⟩

theorem total_appendZoneJournal (d : ZoneDb) (zone : String) (change : ZoneChange) :
    Total (· = d) (Db.appendZoneJournal zone change) fun _ d' =>
      d' = { d with journal := d.journal ++ [(zone, change)] } := by
  apply Total.write
  rintro _ rfl
  rfl

theorem total_journalChange {d : ZoneDb} {zone : String} {z : Zone}
    (hz : d.zones[zone]? = some z) (added removed : List Record) :
    Total (· = d) (journalChange zone added removed) fun _ d' =>
      d' = journaled d zone z added removed := by
  have hbump : Total (· = d) (.attempt (Db.bumpZoneSerial zone)) fun r d' =>
      r = .ok (some (Db.nextSerial z.soa.serial)) ∧
        d' = { d with zones := d.zones.modify zone fun y => { y with soa := z.bumped.soa } } :=
    Total.attempt ((total_bumpZoneSerial hz).consequence (fun _ h => h)
      fun serial _ h => ⟨by rw [h.1], h.2⟩)
  refine hbump.bind fun r => ⟨?_⟩
  rintro clock s hf ⟨rfl, hd⟩
  exact (Total.ignored (total_appendZoneJournal _ zone _)).run clock s hf hd

/-! ### Single records -/

theorem Compatible.symm {r s : Record} (h : Compatible r s) : Compatible s r :=
  fun heq => (h heq.symm).symm

variable {d : ZoneDb}

/-- Without a conflict a record may stand beside every other one of its zone. -/
theorem compatible_of_cnameConflicts {new : Record} {excludeId : Option ℕ} {zone : String}
    (h : Db.cnameConflicts (Db.recordsOf d zone) new.name new.recordType excludeId = false)
    {k : ℕ} {x : Record} (hx : d.records.rows[k]? = some x) (hzone : x.zone = zone)
    (hk : some k ≠ excludeId) : Compatible x new := by
  intro hname
  have hmem := ZoneDb.mem_recordsOf.mpr ⟨k, x, hx, hzone, rfl⟩
  simp only [Db.cnameConflicts, List.any_eq_false, List.mem_filter] at h
  have := h _ ⟨hmem, by simp [hname, hk]⟩
  simp only [Bool.or_eq_true, beq_iff_eq, not_or] at this
  exact ⟨this.2, this.1⟩

theorem outcome_checkCnameCoexistence (d : ZoneDb) (zone name : String) (recordType : RecordType)
    (excludeId : Option ℕ) :
    Outcome (· = d) (Db.checkCnameCoexistence zone name recordType excludeId) fun r d' => d' = d ∧
      Db.cnameConflicts (Db.recordsOf d zone) name recordType excludeId = r.isOk.not := by
  unfold Db.checkCnameCoexistence Db.listRecords
  refine Outcome.readThen ?_
  split
  case isTrue h => exact Outcome.fail fun _ hd => ⟨hd, h⟩
  case isFalse h => exact Outcome.pure fun _ hd => ⟨hd, Bool.eq_false_iff.mpr h⟩

/-- A record is created, or there is a conflict and nothing happens. -/
theorem outcome_createRecord (d : ZoneDb) (new : Record) :
    Outcome (· = d) (Db.createRecord new) fun r d' =>
      Db.cnameConflicts (Db.recordsOf d new.zone) new.name new.recordType none = r.isOk.not ∧
      match r with
      | .ok created => created = { Db.toRow new with id := some d.records.next } ∧ d' = d.create new
      | .error _ => d' = d := by
  refine (outcome_checkCnameCoexistence d _ _ _ _).bind (fun _ => ?_) fun _ _ h => ⟨h.2, h.1⟩
  refine Outcome.call ?_
  rintro _ ⟨rfl, hok⟩
  exact ⟨hok, rfl, rfl⟩

theorem Compatible.toRow {x r : Record} (h : Compatible x r)
    (hstable : normalizeName (normalizeName r.name) = normalizeName r.name) :
    Compatible x (Db.toRow r) := by
  intro hname
  exact h (by simpa [Db.toRow, hstable] using hname)

def erased (d : ZoneDb) (id : ℕ) : ZoneDb := { d with records := d.records.erase id }

theorem total_deleteRecord (d : ZoneDb) (id : ℕ) :
    Total (· = d) (Db.deleteRecord id) fun _ d' => d' = erased d id := by
  apply Total.write
  rintro _ rfl
  rfl

/-! ### Many records -/

/-- The store without the rows under some keys. -/
def erasedAll (d : ZoneDb) (ids : List ℕ) : ZoneDb := ids.foldl erased d

theorem getElem?_erasedAll (d : ZoneDb) (ids : List ℕ) (k : ℕ) :
    (erasedAll d ids).records.rows[k]? = if k ∈ ids then none else d.records.rows[k]? := by
  induction ids generalizing d with
  | nil => simp [erasedAll]
  | cons id ids ih =>
    rw [erasedAll, List.foldl_cons, ← erasedAll, ih, erased, RecordTable.getElem?_erase]
    by_cases hk : k ∈ ids <;> by_cases hid : id = k <;> simp [hk, hid, Ne.symm]

theorem erasedAll_rest (d : ZoneDb) (ids : List ℕ) :
    (erasedAll d ids).zones = d.zones ∧ (erasedAll d ids).journal = d.journal ∧
      (erasedAll d ids).records.next = d.records.next := by
  induction ids generalizing d with
  | nil => exact ⟨rfl, rfl, rfl⟩
  | cons id ids ih => exact ih (erased d id)

theorem total_deleteAll (d : ZoneDb) (records : List Record) :
    Total (· = d) (deleteAll records) fun _ d' => d' = erasedAll d (records.filterMap (·.id)) := by
  induction records generalizing d with
  | nil => exact Total.pure fun _ h => h
  | cons r rest ih =>
    cases hid : r.id with
    | none =>
      refine @Total.bind _ _ _ _ _ (fun _ d' => d' = d) _ _ _ ?_ fun _ => ?_
      · simp only [hid]
        exact Total.pure fun _ h => h
      · rw [List.filterMap_cons_none hid]
        exact ih d
    | some id =>
      refine @Total.bind _ _ _ _ _ (fun _ d' => d' = erased d id) _ _ _ ?_ fun _ => ?_
      · simp only [hid]
        exact total_deleteRecord d id
      · rw [List.filterMap_cons_some hid]
        exact ih (erased d id)

/-- The records of a zone that a predicate picks. -/
theorem mem_picked {zone : String} {p : Record → Bool} {k : ℕ} :
    k ∈ ((Db.recordsOf d zone).filter p).filterMap (·.id) ↔
      ∃ row, d.records.rows[k]? = some row ∧ row.zone = zone ∧ p { row with id := some k } := by
  simp only [List.mem_filterMap, List.mem_filter, ZoneDb.mem_recordsOf]
  constructor
  · rintro ⟨_, ⟨⟨k', row, hrow, hzone, rfl⟩, hp⟩, heq⟩
    cases heq
    exact ⟨row, hrow, hzone, hp⟩
  · rintro ⟨row, hrow, hzone, hp⟩
    exact ⟨_, ⟨⟨k, row, hrow, hzone, rfl⟩, hp⟩, rfl⟩

end Magnetite.Dns
