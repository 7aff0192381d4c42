import Magnetite.Dns.Primary

/-!
# Serving a zone transfer

What a server sends to a secondary that may transfer the zone. A request for the changes since a
serial is answered with difference sequences if the journal leads from that serial to the current
one, and with the whole zone if it does not.
-/
namespace Magnetite.Dns

open Magnetite.Lib

variable {ν : Type}

/-- A secondary zone that was not refreshed in time is not served. -/
def secondaryExpired (now : ℕ) (zone : Zone) : Bool :=
  zone.role == .secondary &&
    match zone.lastSuccess with
    | none => true
    | some t => zone.soa.expire.toNat < now - t

/-- The journal leads from the client's serial to the current one. -/
def bridges (client current : UInt32) (journal : List ZoneChange) : Bool :=
  journal.head?.map (·.serial) == some (client + 1) &&
    journal.getLast?.map (·.serial) == some current

/-- The request asks for changes if it has the serial of the client. -/
def buildAxfrStream (c : Codec ν) (d : ZoneDb) (now : ℕ) (qname : String)
    (clientSerial : Option UInt32) : List (List (Rr ν)) :=
  let want := normalizeName qname
  match (d.zones.toList.map (·.2)).find? fun z =>
      ! secondaryExpired now z && z.enabled && normalizeName z.name == want with
  | none => []
  | some zone =>
    let full := buildAxfrMessages c want zone.soa (Db.recordsOf d zone.id)
    match clientSerial with
    | none => full
    | some client =>
      if client = zone.soa.serial then buildIxfrUptodate c want zone.soa
      else
        let journal := Db.journalSince d zone.id client
        if bridges client zone.soa.serial journal then
          buildIxfrMessages c want zone.soa client journal
        else full

/-! ### What a hosted zone sends -/

/-- The changes go up by one from a serial to the current one. -/
def Consecutive (current : ℕ) : ℕ → List ZoneChange → Prop
  | prev, [] => prev = current
  | prev, change :: rest => change.serial.toNat = prev + 1 ∧ Consecutive current (prev + 1) rest

namespace Consecutive

variable {current prev : ℕ} {journal : List ZoneChange}

theorem getLast (h : Consecutive current prev journal) (hne : journal ≠ []) :
    journal.getLast?.map (·.serial.toNat) = some current := by
  induction journal generalizing prev with
  | nil => exact absurd rfl hne
  | cons first rest ih =>
    cases rest with
    | nil => rw [List.getLast?_singleton, Option.map_some, h.1, h.2]
    | cons next rest => simpa using ih h.2 (by simp)

theorem bridges {current prev : UInt32} (h : Consecutive current.toNat prev.toNat journal)
    (hne : journal ≠ []) : bridges prev current journal := by
  have hlast := h.getLast hne
  cases journal with
  | nil => exact absurd rfl hne
  | cons first rest =>
    have hfirst : first.serial = prev + 1 := by
      rw [← UInt32.toNat_inj, h.1, UInt32.toNat_add]
      have := h.1 ▸ first.serial.toNat_lt
      simp only [UInt32.reduceToNat]
      omega
    obtain ⟨change, hchange, heq⟩ := Option.map_eq_some_iff.mp hlast
    simp [Dns.bridges, hfirst, hchange, UInt32.toNat_inj.mp heq]

end Consecutive

end Magnetite.Dns
