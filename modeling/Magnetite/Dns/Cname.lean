import Magnetite.Dns.Primary

/-!
# A CNAME stands alone

Every writer that creates or changes a record looks at the other records of its zone first. That
keeps the rule as long as the zone it looks at is the one that the record is in, and as long as the
name it looks for is the one that is stored.
-/
namespace Magnetite.Dns

open Magnetite.Lib

variable {ν : Type} {c : Codec ν} {zone : String} {d d' : ZoneDb}

/-- A name in the zone that has a CNAME, enabled or not, has no other record. -/
def Exclusive (zone : String) (d : ZoneDb) : Prop :=
  ∀ (k k' : ℕ) (r r' : Record), d.records.rows[k]? = some r → d.records.rows[k']? = some r' →
    r.zone = zone → r'.zone = zone → k ≠ k' → Compatible r r'

/-- Storing a name and comparing it leave the same of it. -/
def Settled (name : String) : Prop := normalizeName (normalizeName name) = normalizeName name

instance (name : String) : Decidable (Settled name) :=
  inferInstanceAs (Decidable (normalizeName (normalizeName name) = normalizeName name))

-- the space before the closing dot is only seen the second time
example : ¬ Settled "a. ." := by decide +kernel

/-! ### Single writes -/

/-- The rows that stay keep the rule. -/
theorem Exclusive.mono (h : Exclusive zone d)
    (hrows : ∀ (k : ℕ) (r : Record), d'.records.rows[k]? = some r → d.records.rows[k]? = some r) :
    Exclusive zone d' :=
  fun k k' r r' hr hr' hz hz' hne => h k k' r r' (hrows k r hr) (hrows k' r' hr') hz hz' hne

/-- One row changes and may stand beside the others. -/
theorem Exclusive.set (h : Exclusive zone d) (id : ℕ) (new : Record)
    (hrows : ∀ (k : ℕ) (r : Record), d'.records.rows[k]? = some r →
      (k = id ∧ r = new) ∨ (k ≠ id ∧ d.records.rows[k]? = some r))
    (hnew : new.zone = zone → ∀ (k : ℕ) (r : Record), k ≠ id → d.records.rows[k]? = some r →
      r.zone = zone → Compatible r new) : Exclusive zone d' := by
  intro k k' r r' hr hr' hz hz' hne
  obtain ⟨rfl, rfl⟩ | ⟨hk, hr⟩ := hrows k r hr
  · obtain ⟨rfl, -⟩ | ⟨hk', hr'⟩ := hrows k' r' hr'
    · exact absurd rfl hne
    · exact (hnew hz k' r' hk' hr' hz').symm
  · obtain ⟨rfl, rfl⟩ | ⟨hk', hr'⟩ := hrows k' r' hr'
    · exact hnew hz' k r hk hr hz
    · exact h k k' r r' hr hr' hz hz' hne

theorem triple_checkCnameCoexistence (d : ZoneDb) (zone name : String) (recordType : RecordType)
    (excludeId : Option ℕ) :
    Triple (· = d) (Db.checkCnameCoexistence zone name recordType excludeId)
      (fun _ d' => d' = d ∧
        Db.cnameConflicts (Db.recordsOf d zone) name recordType excludeId = false) (· = d) := by
  unfold Db.checkCnameCoexistence Db.listRecords
  refine Triple.readThen ?_ rfl
  split
  case isTrue => exact Triple.fail fun _ hd => hd
  case isFalse h => exact Triple.pure fun _ hd => ⟨hd, Bool.eq_false_iff.mpr h⟩

/-- From every store with an invariant. -/
theorem keeps_of_triple {inv : ZoneDb → Prop} {α : Type} {m : DbM α}
    (h : ∀ d, inv d → Triple (· = d) m (fun _ => inv) inv) : Keeps inv m :=
  ⟨fun clock s hs => (h s.db hs).run clock s rfl⟩

theorem keeps_create {r : Record} (hr : r.zone = zone → Settled r.name) :
    Keeps (Exclusive zone) (Db.createRecord r) := by
  refine keeps_of_triple fun d hd => ?_
  refine Triple.bind ((triple_checkCnameCoexistence d _ _ _ _).consequence (fun _ h => h)
    (fun _ _ h => h) fun _ h => h ▸ hd) fun _ => ?_
  refine Triple.call ?_ (fun _ _ _ h => nomatch h) fun _ h => h.1 ▸ hd
  rintro d _ ⟨rfl, hfree⟩ -
  refine hd.set d.records.next (Db.toRow r) (fun k x hx => ?_) ?_
  · have hx : (d.create r).records.rows[k]? = some x := hx
    rw [ZoneDb.getElem?_create] at hx
    split at hx
    case isTrue hk => exact .inl ⟨hk.symm, (Option.some.inj hx).symm⟩
    case isFalse hk => exact .inr ⟨Ne.symm hk, hx⟩
  · intro hzone k x _ hx hxz
    exact (compatible_of_cnameConflicts hfree hx (hxz.trans hzone.symm) nofun).toRow (hr hzone)

theorem triple_update {id : ℕ} {r : Record} (hd : Exclusive zone d)
    (hr : ∀ row, d.records.rows[id]? = some row → row.zone = zone → r.zone = zone ∧ Settled r.name) :
    Triple (· = d) (Db.updateRecord id r) (fun _ => Exclusive zone) (Exclusive zone) := by
  refine Triple.bind ((triple_checkCnameCoexistence d _ _ _ _).consequence (fun _ h => h)
    (fun _ _ h => h) fun _ h => h ▸ hd) fun _ => ?_
  refine Triple.write ?_ fun _ h => h.1 ▸ hd
  rintro d ⟨rfl, hfree⟩
  cases hrow : d.records.rows[id]? with
  | none =>
    refine hd.mono fun k x hx => ?_
    rw [RecordTable.getElem?_modify] at hx
    split at hx
    case isTrue hk => rw [← hk, hrow] at hx; cases hx
    case isFalse => exact hx
  | some row =>
    refine hd.set id { Db.toRow r with zone := row.zone } (fun k x hx => ?_) ?_
    · rw [RecordTable.getElem?_modify] at hx
      split at hx
      case isTrue hk =>
        rw [← hk, hrow] at hx
        exact .inl ⟨hk.symm, (Option.some.inj hx).symm⟩
      case isFalse hk => exact .inr ⟨Ne.symm hk, hx⟩
    · intro hzone k x hk hx hxz
      obtain ⟨hrz, hsettled⟩ := hr row hrow hzone
      exact (compatible_of_cnameConflicts hfree hx (hxz.trans hrz.symm) (by simpa using hk)).toRow
        hsettled

theorem keeps_delete (id : ℕ) : Keeps (Exclusive zone) (Db.deleteRecord id) := by
  refine Keeps.write fun d hd => hd.mono fun k r hr => ?_
  rw [RecordTable.getElem?_erase] at hr
  split at hr
  · cases hr
  · exact hr

/-! ### The writers -/

theorem keeps_createRecords {records : List Record}
    (h : ∀ r ∈ records, r.zone = zone → Settled r.name) :
    Keeps (Exclusive zone) (Db.createRecords records) := by
  induction records with
  | nil => exact Keeps.pure _
  | cons r records ih =>
    refine (keeps_create (h r List.mem_cons_self)).attempt.bind fun _ => ?_
    exact (ih fun r hr => h r (List.mem_cons_of_mem _ hr)).bind fun _ => Keeps.pure _

theorem keeps_replaceZoneRecords {source : String} {soa : Soa} {records : List Record}
    (h : ∀ r ∈ records, r.zone = zone → Settled r.name) :
    Keeps (Exclusive zone) (Db.replaceZoneRecords source soa records) := by
  have hsoa : Keeps (Exclusive zone) (Db.setZoneSoa source soa) := by
    unfold Db.setZoneSoa Db.updateZone
    exact Keeps.write fun d hd => hd.mono fun _ _ hr => hr
  refine hsoa.bind fun _ => ?_
  refine Keeps.bind (Keeps.write fun d hd => hd.mono fun k r hr => ?_) fun _ => ?_
  · rw [RecordTable.getElem?_filter] at hr
    exact (Option.filter_eq_some_iff.mp hr).1
  · refine (keeps_createRecords h).bind fun failed => ?_
    split
    · exact Keeps.fail _
    · exact Keeps.pure _

theorem keeps_applyZoneDelta {target : String} {removed added : List Record}
    (h : target = zone → ∀ r ∈ added, Settled r.name) :
    Keeps (Exclusive zone) (Db.applyZoneDelta target removed added) := by
  refine Keeps.bind (Keeps.read _ _) fun existing => ?_
  refine Keeps.bind (Keeps.each fun r _ => ?_) fun _ => ?_
  · unfold Db.deleteMatching
    split
    · exact keeps_delete _
    · exact Keeps.pure _
  · refine Keeps.bind (keeps_createRecords fun r hr hz => ?_) fun failed => ?_
    · obtain ⟨x, hx, rfl⟩ := List.mem_map.mp hr
      exact h hz x hx
    · split
      · exact Keeps.fail _
      · exact Keeps.pure _

theorem keeps_deleteRecords (records : List Record) : Keeps (Exclusive zone) (deleteAll records) := by
  refine Keeps.each fun r _ => ?_
  split
  · exact keeps_delete _
  · exact Keeps.pure _

theorem keeps_oneUpdate {target : String} {existing : List Record} {up : UpdateRr ν}
    (h : target = zone → Settled (c.printName up.rr.name)) :
    Keeps (Exclusive zone) (applyOne c target existing up) := by
  unfold applyOne
  cases up.rr.dnsClass with
  | «in» =>
    cases hrecord : fromRr c up.rr with
    | none => exact Keeps.pure _
    | some record =>
      have hname : record.name = c.printName up.rr.name := by
        simp only [fromRr, Option.bind_eq_bind, Option.bind_eq_some_iff] at hrecord
        obtain ⟨_, -, heq⟩ := hrecord
        cases heq
        rfl
      dsimp only
      split
      · exact Keeps.pure _
      · refine (keeps_create fun hz => ?_).attempt.bind fun _ => Keeps.pure _
        exact (congrArg Settled hname).mpr (h hz)
  | any => exact (keeps_deleteRecords _).attempt.bind fun _ => Keeps.pure _
  | none =>
    cases fromRr c up.rr with
    | none => exact Keeps.pure _
    | some record => exact (keeps_deleteRecords _).attempt.bind fun _ => Keeps.pure _
  | other => exact Keeps.pure _

theorem keeps_updates {target : String} {existing : List Record} {updates : List (UpdateRr ν)}
    (h : ∀ up ∈ updates, target = zone → Settled (c.printName up.rr.name)) :
    Keeps (Exclusive zone) (applyUpdates c target existing updates) := by
  induction updates with
  | nil => exact Keeps.pure _
  | cons up updates ih =>
    refine (keeps_oneUpdate (h up List.mem_cons_self)).bind fun code => ?_
    cases code with
    | some code => exact Keeps.pure _
    | none => exact ih fun up hup => h up (List.mem_cons_of_mem _ hup)

theorem keeps_handleUpdate {request : UpdateMessage ν}
    (h : ∀ up ∈ request.updates, Settled (c.printName up.rr.name)) :
    Keeps (Exclusive zone) (handleUpdate c request) := by
  unfold handleUpdate
  split
  · exact Keeps.pure _
  · refine (Keeps.read _ _).attempt.bind fun found => ?_
    split
    · exact Keeps.pure _
    · exact Keeps.pure _
    · refine (Keeps.read _ _).attempt.bind fun listed => ?_
      split
      · exact Keeps.pure _
      · split
        · exact Keeps.pure _
        · split
          · exact keeps_updates fun up hup _ => h up hup
          · exact Keeps.pure _

/-! ### Runs -/

inductive Write (ν : Type) where
  | create (record : Record)
  | update (id : ℕ) (record : Record)
  | delete (id : ℕ)
  | applyDelta (zone : String) (removed added : List Record)
  | replace (zone : String) (soa : Soa) (records : List Record)
  | dynamic (request : UpdateMessage ν)

def Write.exec (c : Codec ν) : Write ν → DbM Unit
  | create record => do let _ ← Db.createRecord record
  | update id record => Db.updateRecord id record
  | delete id => Db.deleteRecord id
  | applyDelta zone removed added => Db.applyZoneDelta zone removed added
  | replace zone soa records => Db.replaceZoneRecords zone soa records
  | dynamic request => do let _ ← handleUpdate c request

/-- A record of the zone is changed as one of this zone, and the names that come into it are
settled. -/
def Write.Guarded (c : Codec ν) (zone : String) (d : ZoneDb) : Write ν → Prop
  | create record => record.zone = zone → Settled record.name
  | update id record => ∀ row, d.records.rows[id]? = some row → row.zone = zone →
      record.zone = zone ∧ Settled record.name
  | delete _ => True
  | applyDelta target _ added => target = zone → ∀ r ∈ added, Settled r.name
  | replace _ _ records => ∀ r ∈ records, r.zone = zone → Settled r.name
  | dynamic request => ∀ up ∈ request.updates, Settled (c.printName up.rr.name)

/-- Any call of the database may fail on the way. -/
def Writes (c : Codec ν) (zone : String) (d : ZoneDb) (w : Write ν) (d' : ZoneDb) : Prop :=
  w.Guarded c zone d ∧ ∃ clock faults tick, (w.exec c clock ⟨d, faults, tick⟩).2.db = d'

theorem triple_exec {w : Write ν} (hd : Exclusive zone d) (h : w.Guarded c zone d) :
    Triple (· = d) (w.exec c) (fun _ => Exclusive zone) (Exclusive zone) := by
  cases w with
  | create record => exact Keeps.triple ((keeps_create h).bind fun _ => Keeps.pure _) hd
  | update id record => exact triple_update hd h
  | delete id => exact (keeps_delete id).triple hd
  | applyDelta target removed added => exact (keeps_applyZoneDelta h).triple hd
  | replace target soa records => exact (keeps_replaceZoneRecords h).triple hd
  | dynamic request => exact Keeps.triple ((keeps_handleUpdate h).bind fun _ => Keeps.pure _) hd

/-- No sequence of guarded writes, of an administrator, a transfer or a dynamic update and with
calls that fail at any point, puts a record beside a CNAME of the zone. -/
theorem cname_exclusive {writes : List (Write ν)} (run : Run (Writes c zone) d writes d')
    (h : Exclusive zone d) : Exclusive zone d' := by
  refine run.invariant (Exclusive zone) ?_ h
  rintro d w d' hd ⟨hguard, clock, faults, tick, rfl⟩
  have := (triple_exec hd hguard).run clock ⟨d, faults, tick⟩ rfl
  split at this
  case h_1 heq => rw [heq]; exact this
  case h_2 heq => rw [heq]; exact this

section Sample

def host (zone name : String) (recordType : RecordType) : Record where
  id := none
  zone := zone
  name := name
  ttl := 300
  recordType := recordType
  data := ∅
  enabled := true

def twoHosts : ZoneDb where
  zones := ∅
  records := (noRecords.create (host "z" "www.example.com" .a)).create
    (host "z" "mail.example.com" .a)
  journal := []

theorem exclusive_twoHosts : Exclusive "z" twoHosts := by
  have hrow (k : ℕ) (r : Record) (h : twoHosts.records.rows[k]? = some r) :
      r.recordType ≠ .cname := by
    have hall : ∀ x ∈ twoHosts.records.list, x.recordType ≠ .cname := by decide +kernel
    have hmem : { r with id := some k } ∈ twoHosts.records.list :=
      List.mem_map.mpr ⟨(k, r), Std.ExtTreeMap.mem_toList_iff_getElem?_eq_some.mpr h, rfl⟩
    exact hall { r with id := some k } hmem
  exact fun k k' r r' hr hr' _ _ _ _ => ⟨hrow k r hr, hrow k' r' hr'⟩

def aliased (zone : String) : Write String := .update 1 (host zone "WWW.example.com." .cname)

/-- A record of one zone is changed as one of another zone, which has no such name. -/
theorem cname_beside_address : Exclusive "z" twoHosts ∧
    ((aliased "y").exec plainCodec id ⟨twoHosts, [], 0⟩).1 = .ok () ∧
    ¬ Exclusive "z" ((aliased "y").exec plainCodec id ⟨twoHosts, [], 0⟩).2.db := by
  refine ⟨exclusive_twoHosts, by decide +kernel, fun h => ?_⟩
  have := h 0 1 (host "z" "www.example.com" .a) (host "z" "www.example.com" .cname)
    (by decide +kernel) (by decide +kernel) rfl rfl (by decide) rfl
  exact this.2 rfl

theorem cname_exclusive_sample : Exclusive "z" twoHosts ∧
    Exclusive "z" ((aliased "z").exec plainCodec id ⟨twoHosts, [], 0⟩).2.db := by
  refine ⟨exclusive_twoHosts, cname_exclusive (c := plainCodec) (.cons ⟨?_, id, [], 0, rfl⟩ (.nil _))
    exclusive_twoHosts⟩
  exact fun _ _ _ => ⟨rfl, by decide +kernel⟩

end Sample

end Magnetite.Dns
