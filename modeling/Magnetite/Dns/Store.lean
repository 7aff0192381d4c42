import Mathlib.Data.List.Sort
import Magnetite.Lib.Store
import Magnetite.Dns.Transfer

/-!
# The zone store

Zones, their records and the journal of changes, with the repository functions on them as programs
against the store. Every call may fail on its own, and nothing is undone when a later call fails.
-/
namespace Magnetite.Dns

open Magnetite.Lib

inductive ZoneRole where
  | primary | secondary
deriving DecidableEq

/-- The outcome of a secondary's last transfer attempt. -/
structure TransferState where
  lastSerial : UInt32
  lastAttempt : ℕ
  lastOk : Bool
  lastError : Option String
  lastSuccess : Option ℕ
deriving DecidableEq

structure Zone where
  id : String
  name : String
  soa : Soa
  enabled : Bool
  role : ZoneRole
  transferState : Option TransferState
deriving DecidableEq

/-- The rows of the record table. Keys are never used again, so a new row does not replace one. -/
structure RecordTable where
  rows : Std.ExtTreeMap ℕ Record
  next : ℕ
  fresh : ∀ k ∈ rows, k < next

namespace RecordTable

def create (t : RecordTable) (row : Record) : RecordTable where
  rows := t.rows.insert t.next row
  next := t.next + 1
  fresh k hk := by
    obtain h | h := Std.ExtTreeMap.mem_insert.mp hk
    · simp only [Std.compare_eq_iff_eq] at h
      omega
    · exact (t.fresh k h).trans (Nat.lt_succ_self _)

def erase (t : RecordTable) (id : ℕ) : RecordTable where
  rows := t.rows.erase id
  next := t.next
  fresh k hk := t.fresh k (Std.ExtTreeMap.mem_erase.mp hk).2

def filter (t : RecordTable) (keep : Record → Bool) : RecordTable where
  rows := t.rows.filter fun _ row => keep row
  next := t.next
  fresh k hk := t.fresh k (Std.ExtTreeMap.mem_of_mem_filter hk)

def modify (t : RecordTable) (id : ℕ) (f : Record → Record) : RecordTable where
  rows := t.rows.modify id f
  next := t.next
  fresh k hk := t.fresh k (Std.ExtTreeMap.mem_modify.mp hk)

@[simp] theorem getElem?_filter (t : RecordTable) (keep : Record → Bool) (k : ℕ) :
    (t.filter keep).rows[k]? = t.rows[k]?.filter keep := by
  simp [filter, Std.ExtTreeMap.getElem?_filter]

@[simp] theorem getElem?_erase (t : RecordTable) (id k : ℕ) :
    (t.erase id).rows[k]? = if id = k then none else t.rows[k]? := by
  simp only [erase, Std.ExtTreeMap.getElem?_erase, Std.compare_eq_iff_eq]

@[simp] theorem getElem?_modify (t : RecordTable) (id : ℕ) (f : Record → Record) (k : ℕ) :
    (t.modify id f).rows[k]? = if id = k then t.rows[k]?.map f else t.rows[k]? := by
  simp only [modify, Std.ExtTreeMap.getElem?_modify, Std.compare_eq_iff_eq]
  split
  · subst_vars; rfl
  · rfl

theorem eq_of_getElem? {t t' : RecordTable} (hnext : t.next = t'.next)
    (h : ∀ k : ℕ, t.rows[k]? = t'.rows[k]?) : t = t' := by
  have hrows : t.rows = t'.rows := Std.ExtTreeMap.ext_getElem? h
  cases t
  cases t'
  simp_all

/-- The rows as records with their keys. -/
def list (t : RecordTable) : List Record :=
  t.rows.toList.map fun row => { row.2 with id := some row.1 }

end RecordTable

structure ZoneDb where
  zones : Std.ExtTreeMap String Zone
  records : RecordTable
  /-- Changes with the zone they were made in, as they were appended. -/
  journal : List (String × ZoneChange)

inductive DbError where
  | surreal
  | constraint (message : String)
deriving DecidableEq

abbrev DbM := StoreM DbError ZoneDb

def Record.inZone (record : Record) (zone : String) : Record := { record with zone }

def cnameConflict : String := "CNAME レコードは同名の他レコードと共存できません。"

namespace Db

def getZone (id : String) : DbM (Option Zone) := .read .surreal (·.zones[id]?)

def updateZone (id : String) (f : Zone → Zone) : DbM Unit :=
  .write .surreal fun d => { d with zones := d.zones.modify id f }

def setZoneSoa (id : String) (soa : Soa) : DbM Unit := updateZone id fun z => { z with soa }

def setZoneTransferState (id : String) (state : TransferState) : DbM Unit :=
  updateZone id fun z => { z with transferState := some state }

/-- The serial never becomes zero. -/
def nextSerial (serial : UInt32) : UInt32 := max (serial + 1) 1

def bumpZoneSerial (id : String) : DbM (Option UInt32) := do
  match ← getZone id with
  | none => pure none
  | some zone =>
    let serial := nextSerial zone.soa.serial
    setZoneSoa id { zone.soa with serial }
    pure (some serial)

/-- The records of a zone. -/
def recordsOf (d : ZoneDb) (zone : String) : List Record := d.records.list.filter (·.zone == zone)

def listRecords (zone : String) : DbM (List Record) := .read .surreal (recordsOf · zone)

/-- Whether a record of the type may not stand at the name beside the other records. -/
def cnameConflicts (records : List Record) (name : String) (recordType : RecordType)
    (excludeId : Option ℕ) : Bool :=
  let siblings := records.filter fun r =>
    normalizeName r.name == normalizeName name && (excludeId.isNone || r.id != excludeId)
  siblings.any fun r => recordType == .cname || r.recordType == .cname

def checkCnameCoexistence (zone name : String) (recordType : RecordType) (excludeId : Option ℕ) :
    DbM Unit := do
  if cnameConflicts (← listRecords zone) name recordType excludeId then
    .fail (.constraint cnameConflict)

/-- The row that a record becomes. -/
def toRow (record : Record) : Record :=
  { record with id := none, name := normalizeName record.name }

def createRecord (record : Record) : DbM Record := do
  checkCnameCoexistence record.zone record.name record.recordType none
  .call .surreal fun d => (.ok { toRow record with id := some d.records.next },
    { d with records := d.records.create (toRow record) })

/-- All columns are set but the zone. -/
def updateRecord (id : ℕ) (record : Record) : DbM Unit := do
  checkCnameCoexistence record.zone record.name record.recordType (some id)
  .write .surreal fun d => { d with
    records := d.records.modify id fun row => { toRow record with zone := row.zone } }

def deleteRecord (id : ℕ) : DbM Unit :=
  .write .surreal fun d => { d with records := d.records.erase id }

def appendZoneJournal (zone : String) (change : ZoneChange) : DbM Unit :=
  .write .surreal fun d => { d with journal := d.journal ++ [(zone, change)] }

/-- The changes of a zone after a serial, in ascending order. -/
def journalSince (d : ZoneDb) (zone : String) (fromSerial : UInt32) : List ZoneChange :=
  ((d.journal.filter (·.1 == zone)).map (·.2)).filter (fromSerial < ·.serial)
    |>.insertionSort fun a b => a.serial ≤ b.serial

/-- One creation after the other; the number of those that failed. -/
def createRecords : List Record → DbM ℕ
  | [] => pure 0
  | record :: rest => do
    let created ← .attempt (createRecord record)
    let failed ← createRecords rest
    pure (match created with | .ok _ => failed | .error _ => failed + 1)

def replaceZoneRecords (zone : String) (soa : Soa) (records : List Record) : DbM Unit := do
  setZoneSoa zone soa
  .write .surreal fun d => { d with records := d.records.filter (·.zone != zone) }
  let failed ← createRecords records
  if failed > 0 then
    .fail (.constraint s!"{failed} record(s) failed to apply during zone load")

/-- The same name, type and data; the time to live does not count. -/
def sameRr (a b : Record) : Bool :=
  normalizeName a.name == normalizeName b.name && a.recordType == b.recordType && a.data == b.data

/-- What is removed is looked up in the records as they were before. -/
def deleteMatching (existing : List Record) (removed : Record) : DbM Unit :=
  match (existing.find? (sameRr · removed)).bind (·.id) with
  | some id => deleteRecord id
  | none => pure ()

def applyZoneDelta (zone : String) (removed added : List Record) : DbM Unit := do
  let existing ← listRecords zone
  .each removed (deleteMatching existing)
  let failed ← createRecords (added.map (·.inZone zone))
  if failed > 0 then
    .fail (.constraint s!"{failed} record(s) failed to apply during IXFR delta")

end Db

/-! ### What the programs leave on a store that does not fail -/

/-- A record with its key left out. -/
def Record.row (r : Record) : Record := { r with id := none }

namespace ZoneDb

def create (d : ZoneDb) (record : Record) : ZoneDb :=
  { d with records := d.records.create (Db.toRow record) }

/-- The rows of a zone. -/
def rowsOf (d : ZoneDb) (zone : String) : Set Record :=
  {row | ∃ (k : ℕ) (r : Record), d.records.rows[k]? = some r ∧ r.zone = zone ∧ r.row = row}

theorem mem_recordsOf {d : ZoneDb} {zone : String} {r : Record} :
    r ∈ Db.recordsOf d zone ↔
      ∃ (k : ℕ) (row : Record), d.records.rows[k]? = some row ∧ row.zone = zone ∧
        r = { row with id := some k } := by
  simp only [Db.recordsOf, RecordTable.list, List.mem_filter, List.mem_map, beq_iff_eq, Prod.exists,
    Std.ExtTreeMap.mem_toList_iff_getElem?_eq_some]
  constructor
  · rintro ⟨⟨k, row, hrow, rfl⟩, hzone⟩
    exact ⟨k, row, hrow, hzone, rfl⟩
  · rintro ⟨k, row, hrow, hzone, rfl⟩
    exact ⟨⟨k, row, hrow, rfl⟩, hzone⟩

theorem row_mem_rowsOf {d : ZoneDb} {zone : String} {r : Record} (h : r ∈ Db.recordsOf d zone) :
    r.row ∈ d.rowsOf zone := by
  obtain ⟨k, row, hrow, hzone, rfl⟩ := mem_recordsOf.mp h
  exact ⟨k, row, hrow, hzone, rfl⟩

theorem getElem?_create (d : ZoneDb) (r : Record) (k : ℕ) :
    (d.create r).records.rows[k]? =
      if d.records.next = k then some (Db.toRow r) else d.records.rows[k]? := by
  simp only [create, RecordTable.create, Std.ExtTreeMap.getElem?_insert, Std.compare_eq_iff_eq]

theorem getElem?_next (d : ZoneDb) : d.records.rows[d.records.next]? = none := by
  rw [Std.ExtTreeMap.getElem?_eq_none]
  intro h
  exact lt_irrefl _ (d.records.fresh _ h)

theorem rowsOf_create (d : ZoneDb) (r : Record) (zone : String) :
    (d.create r).rowsOf zone =
      d.rowsOf zone ∪ {row | r.zone = zone ∧ row = Db.toRow r} := by
  ext row
  constructor
  · rintro ⟨k, x, hx, hzone, rfl⟩
    rw [getElem?_create] at hx
    split at hx
    · cases hx
      exact .inr ⟨hzone, rfl⟩
    · exact .inl ⟨k, x, hx, hzone, rfl⟩
  · rintro (⟨k, x, hx, hzone, rfl⟩ | ⟨hzone, rfl⟩)
    · refine ⟨k, x, ?_, hzone, rfl⟩
      rw [getElem?_create, if_neg, hx]
      rintro rfl
      rw [getElem?_next] at hx
      cases hx
    · have hnew : (d.create r).records.rows[d.records.next]? = some (Db.toRow r) := by
        rw [getElem?_create, if_pos rfl]
      exact ⟨d.records.next, Db.toRow r, hnew, hzone, rfl⟩

theorem rowsOf_foldl_create (d : ZoneDb) (rs : List Record) (zone : String) :
    (rs.foldl create d).rowsOf zone =
      d.rowsOf zone ∪ {row | ∃ r ∈ rs, r.zone = zone ∧ row = Db.toRow r} := by
  induction rs generalizing d with
  | nil => simp
  | cons r rs ih =>
    rw [List.foldl_cons, ih, rowsOf_create, Set.union_assoc]
    congr 1
    ext row
    simp

@[simp] theorem zones_foldl_create (d : ZoneDb) (rs : List Record) :
    (rs.foldl create d).zones = d.zones := by
  induction rs generalizing d with
  | nil => rfl
  | cons r rs ih => rw [List.foldl_cons, ih]; rfl

end ZoneDb

/-- A stored record and a new one do not conflict: if they have one name, neither is a CNAME. -/
def Compatible (row new : Record) : Prop :=
  normalizeName row.name = normalizeName new.name →
    row.recordType ≠ .cname ∧ new.recordType ≠ .cname

namespace Db

theorem cnameConflicts_eq_false {records : List Record} {new : Record}
    (h : ∀ r ∈ records, Compatible r new) :
    cnameConflicts records new.name new.recordType none = false := by
  simp only [cnameConflicts, List.any_eq_false, List.mem_filter]
  intro r ⟨hr, hname⟩
  have := h r hr (by simpa using hname)
  simp [this]

theorem total_createRecord {d : ZoneDb} {new : Record}
    (h : ∀ row ∈ d.rowsOf new.zone, Compatible row new) :
    Total (· = d) (createRecord new) fun _ d' => d' = d.create new := by
  have hcheck : Total (· = d)
      (checkCnameCoexistence new.zone new.name new.recordType none) fun _ d' => d' = d := by
    unfold checkCnameCoexistence listRecords
    refine Total.readThen ?_
    rw [cnameConflicts_eq_false fun r hr => h r.row (ZoneDb.row_mem_rowsOf hr)]
    exact Total.pure fun _ hd => hd
  refine hcheck.bind fun _ => Total.call ?_
  rintro _ rfl
  exact ⟨_, rfl, rfl⟩

theorem total_createRecords {d : ZoneDb} {records : List Record}
    (hstored : ∀ r ∈ records, ∀ row ∈ d.rowsOf r.zone, Compatible row r)
    (hnew : records.Pairwise fun a b => a.zone = b.zone → Compatible (toRow a) b) :
    Total (· = d) (createRecords records) fun failed d' =>
      failed = 0 ∧ d' = records.foldl ZoneDb.create d := by
  induction records generalizing d with
  | nil => exact Total.pure fun _ hd => ⟨rfl, hd⟩
  | cons r rest ih =>
    obtain ⟨hfirst, hrest⟩ := List.pairwise_cons.mp hnew
    have hstored' : ∀ s ∈ rest, ∀ row ∈ (d.create r).rowsOf s.zone, Compatible row s := by
      intro s hs row hrow
      rw [ZoneDb.rowsOf_create] at hrow
      obtain hrow | ⟨hzone, rfl⟩ := hrow
      · exact hstored s (List.mem_cons_of_mem _ hs) row hrow
      · exact hfirst s hs hzone
    have hcreate : Total (· = d) (.attempt (createRecord r)) fun created d' =>
        (∃ record, created = .ok record) ∧ d' = d.create r :=
      Total.attempt ((total_createRecord (hstored r List.mem_cons_self)).consequence
        (fun _ h => h) fun record _ h => ⟨⟨record, rfl⟩, h⟩)
    refine hcreate.bind fun created => ⟨?_⟩
    rintro clock s hf ⟨⟨record, rfl⟩, hd⟩
    have htail : Total (· = d.create r) (createRecords rest >>= fun failed => pure failed)
        fun failed d' => failed = 0 ∧ d' = rest.foldl ZoneDb.create (d.create r) :=
      (ih hstored' hrest).bind fun failed => Total.pure fun _ h => h
    exact htail.run clock s hf hd

/-- The error for records that failed is not reached. -/
theorem total_createAll {d : ZoneDb} {records : List Record} (error : ℕ → DbError)
    (hstored : ∀ r ∈ records, ∀ row ∈ d.rowsOf r.zone, Compatible row r)
    (hnew : records.Pairwise fun a b => a.zone = b.zone → Compatible (toRow a) b) :
    Total (· = d) (do
        let failed ← createRecords records
        if failed > 0 then .fail (error failed))
      fun _ d' => d' = records.foldl ZoneDb.create d := by
  refine (total_createRecords hstored hnew).bind fun failed => ⟨?_⟩
  rintro clock s hf ⟨rfl, hd⟩
  exact ⟨(), s, rfl, hf, hd⟩

theorem total_updateZone (d : ZoneDb) (zone : String) (f : Zone → Zone) :
    Total (· = d) (updateZone zone f) fun _ d' =>
      d' = { d with zones := d.zones.modify zone f } := by
  apply Total.write
  rintro _ rfl
  rfl

/-- A zone whose rows were dropped and whose SOA was set, before the new rows come. -/
def cleared (d : ZoneDb) (zone : String) (soa : Soa) : ZoneDb :=
  { d with
    zones := d.zones.modify zone fun z => { z with soa }
    records := d.records.filter (·.zone != zone) }

theorem rowsOf_cleared (d : ZoneDb) (zone : String) (soa : Soa) :
    (cleared d zone soa).rowsOf zone = ∅ := by
  refine Set.eq_empty_iff_forall_notMem.mpr ?_
  rintro row ⟨k, r, hr, hzone, -⟩
  simp [cleared, Option.filter_eq_some_iff, hzone] at hr

theorem total_replaceZoneRecords (d : ZoneDb) (soa : Soa) {zone : String} {records : List Record}
    (hzone : ∀ r ∈ records, r.zone = zone)
    (hnew : records.Pairwise fun a b => Compatible (toRow a) b) :
    Total (· = d) (replaceZoneRecords zone soa records) fun _ d' =>
      d' = records.foldl ZoneDb.create (cleared d zone soa) := by
  refine (total_updateZone d zone _).bind fun _ => ?_
  have hdelete : Total (· = { d with zones := d.zones.modify zone fun z => { z with soa } })
      (.write .surreal fun d => { d with records := d.records.filter (·.zone != zone) } : DbM Unit)
      fun _ d' => d' = cleared d zone soa := Total.write (by rintro _ rfl; rfl)
  refine hdelete.bind fun _ => ?_
  have hstored : ∀ r ∈ records, ∀ row ∈ (cleared d zone soa).rowsOf r.zone, Compatible row r :=
    fun r hr row hrow => by simp [hzone r hr, rowsOf_cleared] at hrow
  have hnew : records.Pairwise fun a b => a.zone = b.zone → Compatible (toRow a) b :=
    hnew.imp fun {a b} (h : Compatible (toRow a) b) (_ : a.zone = b.zone) => h
  exact total_createAll _ hstored hnew

end Db

end Magnetite.Dns
