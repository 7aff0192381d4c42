import Magnetite.Lib.Attempt
import Magnetite.Dns.Store

/-!
# Writers of a zone

Programs against the store that change a zone: the serial and the journal behind a change, and
dynamic updates.
-/
namespace Magnetite.Dns

open Magnetite.Lib

variable {ν : Type}

/-- The name is the apex of the zone or below it. -/
def inZone (name zone : String) : Bool := name == zone || Text.endsWith name ("." ++ zone)

/-- The serial goes up and the change is put into the journal, if the store lets it. -/
def journalChange (zone : String) (added removed : List Record) : DbM Unit := do
  match ← .attempt (Db.bumpZoneSerial zone) with
  | .ok (some serial) => do
    let _ ← .attempt (Db.appendZoneJournal zone ⟨serial, added, removed⟩)
  | _ => pure ()

/-! ### Dynamic updates -/

def deleteAll (records : List Record) : DbM Unit :=
  .each records fun r => match r.id with
    | some id => Db.deleteRecord id
    | none => pure ()

def findZone (p : Zone → Bool) : DbM (Option Zone) :=
  .read .surreal fun d => (d.zones.toList.map (·.2)).find? p

/-- The type that an update or a prerequisite names. -/
inductive RrType where
  | any
  | core (recordType : RecordType)
  | other
deriving DecidableEq

def RrType.covers : RrType → RecordType → Bool
  | .any, _ => true
  | .core t, recordType => recordType == t
  | .other, _ => false

/-- A resource record of an update message; it may have a type without a value. -/
structure UpdateRr (ν : Type) where
  rr : Rr ν
  type : RrType

structure UpdateMessage (ν : Type) where
  /-- The zone that the one SOA question names. -/
  zone : Option ν
  prerequisites : List (UpdateRr ν)
  updates : List (UpdateRr ν)

/-- Lower case without the root dot. -/
def norm (name : String) : String := Text.toAsciiLowercase (Text.trimEndMatches '.' name)

/-- The same name, type and data as `norm` compares names. -/
def sameUpdateRr (a b : Record) : Bool :=
  norm a.name == norm b.name && a.recordType == b.recordType && a.data == b.data

inductive ResponseCode where
  | noError | formErr | servFail | notAuth | notZone | nxDomain | nxRrSet | yxDomain | yxRrSet
deriving DecidableEq

def checkPrerequisite (c : Codec ν) (existing : List Record) (pre : UpdateRr ν) :
    Except ResponseCode Unit :=
  let name := norm (c.printName pre.rr.name)
  let nameInUse := existing.any fun r => norm r.name == name
  let rrsetExists := match pre.type with
    | .core t => existing.any fun r => norm r.name == name && r.recordType == t
    | _ => false
  match pre.rr.dnsClass, pre.type with
  | .any, .any => ensure nameInUse .nxDomain
  | .any, _ => ensure rrsetExists .nxRrSet
  | .none, .any => ensure (! nameInUse) .yxDomain
  | .none, _ => ensure (! rrsetExists) .yxRrSet
  | _, _ =>
    match fromRr c pre.rr with
    | some record => ensure (existing.any (sameUpdateRr · record)) .nxRrSet
    | none => .error .formErr

/-- The code that a failed program is answered with. -/
def codeOf {α : Type} : Except DbError α → Option ResponseCode
  | .ok _ => none
  | .error _ => some .servFail

/-- One update, with a code if it fails. What exists is what existed before the first of them. -/
def applyOne (c : Codec ν) (zone : String) (existing : List Record) (up : UpdateRr ν) :
    DbM (Option ResponseCode) := do
  let name := norm (c.printName up.rr.name)
  match up.rr.dnsClass with
  | .in =>
    match fromRr c up.rr with
    | none => pure (some .formErr)
    | some record =>
      if existing.any (sameUpdateRr · record) then pure none
      else pure (codeOf (← .attempt (Db.createRecord (record.inZone zone))))
  | .any =>
    let matching := existing.filter fun r => norm r.name == name && up.type.covers r.recordType
    pure (codeOf (← .attempt (deleteAll matching)))
  | .none =>
    match fromRr c up.rr with
    | none => pure none
    | some record =>
      pure (codeOf (← .attempt (deleteAll (existing.filter (sameUpdateRr · record)))))
  | .other => pure (some .formErr)

def applyUpdates (c : Codec ν) (zone : String) (existing : List Record) :
    List (UpdateRr ν) → DbM ResponseCode
  | [] => pure .noError
  | up :: rest => do
    match ← applyOne c zone existing up with
    | some code => pure code
    | none => applyUpdates c zone existing rest

/-- Neither the serial nor the journal is touched. -/
def handleUpdate (c : Codec ν) (request : UpdateMessage ν) : DbM ResponseCode := do
  match request.zone with
  | none => pure .formErr
  | some zoneName =>
    let zoneName := norm (c.printName zoneName)
    match ← .attempt (findZone fun z => norm z.name == zoneName) with
    | .error _ => pure .servFail
    | .ok none => pure .notAuth
    | .ok (some zone) =>
      match ← .attempt (Db.listRecords zone.id) with
      | .error _ => pure .servFail
      | .ok existing =>
        match request.prerequisites.forM (checkPrerequisite c existing) with
        | .error code => pure code
        | .ok () =>
          if request.updates.all fun up => inZone (norm (c.printName up.rr.name)) zoneName then
            applyUpdates c zone.id existing request.updates
          else pure .notZone

end Magnetite.Dns
