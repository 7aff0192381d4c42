import Mathlib
import Magnetite.Ldap.Directory

/-!
# Entries from a provider

The repository functions by which a consumer applies what a provider sent: entries are put at their
DN with the provider's identifier, and taken away by that identifier.
-/
namespace Magnetite.Ldap

open Magnetite.Lib

/-- What a provider says of an entry. -/
structure SyncEntry where
  dn : String
  uuid : String
  objectClasses : List String
  attributes : Attributes
  enabled : Bool
deriving DecidableEq

namespace Db

/-- Whether the entry is new. -/
def applyLdapSyncEntry (e : SyncEntry) : DbM Bool := do
  let norm := normalizeDn e.dn
  let structural := structuralOf e.objectClasses
  let now ← .now
  match ← findEntry norm with
  | some _ =>
    updateEntry norm fun rec =>
      { rec with
        objectClasses := e.objectClasses
        structuralClass := structural
        attributes := e.attributes
        sourceUuid := some e.uuid
        enabled := e.enabled
        updatedAt := now }
    return false
  | none =>
    createRow norm
      { rdn := rdnOf norm
        parentDn := parentOf norm
        objectClasses := e.objectClasses
        structuralClass := structural
        attributes := e.attributes
        enabled := e.enabled
        passwordRef := none
        hasChildren := false
        createdAt := now
        updatedAt := now
        createdBy := "syncrepl"
        sourceUuid := some e.uuid }
    match parentOf norm with
    | some parent =>
      -- the parent may not have been replicated yet
      let _ ← .attempt (setHasChildren parent true)
      return true
    | none => return true

def ldapImportedUuids : DbM (List String) :=
  .read .surreal fun d => d.entries.toList.filterMap (·.2.sourceUuid)

/-- Whether there was such an entry. -/
def applyLdapSyncDelete (uuid : String) : DbM Bool := do
  let dns ← StoreM.read .surreal fun d : Directory =>
    d.entries.toList.filter (·.2.sourceUuid = some uuid)
  if dns.isEmpty then return false
  else
    .write .surreal fun d =>
      { d with entries := d.entries.filter fun _ rec => rec.sourceUuid ≠ some uuid }
    return true

end Db

/-! ## What they leave -/

/-- The record is as the provider says. -/
structure SyncEntry.Matches (e : SyncEntry) (rec : EntryRecord) : Prop where
  uuid : rec.sourceUuid = some e.uuid
  objectClasses : rec.objectClasses = e.objectClasses
  structuralClass : rec.structuralClass = structuralOf e.objectClasses
  attributes : rec.attributes = e.attributes
  enabled : rec.enabled = e.enabled

/-- The entry is in the directory as the provider says. -/
def SyncEntry.Applied (e : SyncEntry) (d : Directory) : Prop :=
  ∃ rec, d.entries[normalizeDn e.dn]? = some rec ∧ e.Matches rec

/-- The records at a DN, but for the mark of those that have children. -/
def Directory.unmarked (d : Directory) (dn : String) : Option EntryRecord :=
  d.entries[dn]?.map fun rec => { rec with hasChildren := false }

theorem SyncEntry.applied_iff {e : SyncEntry} {d : Directory} :
    e.Applied d ↔ ∃ rec, d.unmarked (normalizeDn e.dn) = some rec ∧ e.Matches rec := by
  simp only [SyncEntry.Applied, Directory.unmarked, Option.map_eq_some_iff]
  constructor
  · rintro ⟨rec, hrec, h⟩
    exact ⟨_, ⟨rec, hrec, rfl⟩, ⟨h.uuid, h.objectClasses, h.structuralClass, h.attributes, h.enabled⟩⟩
  · rintro ⟨_, ⟨rec, hrec, rfl⟩, h⟩
    exact ⟨rec, hrec, ⟨h.uuid, h.objectClasses, h.structuralClass, h.attributes, h.enabled⟩⟩

theorem unmarked_setChildren (d : Directory) (key dn : String) (value : Bool) :
    ({ d with entries := d.entries.modify key fun rec => { rec with hasChildren := value } } :
      Directory).unmarked dn = d.unmarked dn := by
  simp only [Directory.unmarked, Std.ExtTreeMap.getElem?_modify, Std.compare_eq_iff_eq]
  split_ifs with h
  · subst h
    simp [Option.map_map, Function.comp_def]
  · rfl

open Db

/-- The entry is applied and other DNs keep their records. -/
structure AppliedTo (d : Directory) (e : SyncEntry) (t : Directory) : Prop where
  applied : e.Applied t
  others : ∀ dn, dn ≠ normalizeDn e.dn → t.unmarked dn = d.unmarked dn

theorem AppliedTo.setChildren {d t : Directory} {e : SyncEntry} (h : AppliedTo d e t) (key : String)
    (value : Bool) : AppliedTo d e
      { t with entries := t.entries.modify key fun rec => { rec with hasChildren := value } } where
  applied := by simpa only [SyncEntry.applied_iff, unmarked_setChildren] using h.applied
  others dn hne := (unmarked_setChildren ..).trans (h.others dn hne)

theorem appliedTo_insert (d : Directory) {e : SyncEntry} {rec : EntryRecord} (h : e.Matches rec) :
    AppliedTo d e { d with entries := d.entries.insert (normalizeDn e.dn) rec } where
  applied := ⟨rec, by simp, h⟩
  others dn hne := by
    simp [Directory.unmarked, Std.ExtTreeMap.getElem?_insert, hne.symm]

theorem appliedTo_modify {d : Directory} {e : SyncEntry} {f : EntryRecord → EntryRecord}
    (hdn : d.entries[normalizeDn e.dn]? ≠ none) (h : ∀ rec, e.Matches (f rec)) :
    AppliedTo d e { d with entries := d.entries.modify (normalizeDn e.dn) f } where
  applied := by
    obtain ⟨rec, hrec⟩ := Option.ne_none_iff_exists'.mp hdn
    exact ⟨f rec, by simp [Std.ExtTreeMap.getElem?_modify_self, hrec], h rec⟩
  others dn hne := by
    simp [Directory.unmarked, Std.ExtTreeMap.getElem?_modify, hne.symm]

theorem markParent_triple (parent : Option String) (d : Directory) (e : SyncEntry) :
    Triple (AppliedTo d e)
      (match parent with
        | some parent => do
          let _ ← .attempt (setHasChildren parent true)
          return true
        | none => return true : DbM Bool)
      (fun _ => AppliedTo d e) (· = d) := by
  cases parent with
  | none => exact Triple.pure fun _ h => h
  | some parent =>
    have hmark : Keeps (AppliedTo d e) (setHasChildren parent true) := by
      unfold setHasChildren updateEntry
      exact Keeps.write fun _ h => h.setChildren _ _
    exact Triple.thenPure (Triple.attempt
      (hmark.consequence (fun _ h => h) (fun _ _ h => h) fun _ h _ => h))

/-- The entry is applied, or nothing has changed. -/
theorem applyLdapSyncEntry_spec (e : SyncEntry) (d : Directory) :
    Triple (· = d) (applyLdapSyncEntry e) (fun _ => AppliedTo d e) (· = d) := by
  have hnow : Triple (· = d) (StoreM.now : DbM ℕ) (fun _ t => t = d) (· = d) :=
    Triple.now fun _ _ h => h
  refine hnow.bind fun now => Triple.readThen ?_ rfl
  split
  · rename_i rec hrec
    rw [normalizeDn_normalizeDn] at hrec
    refine Triple.thenPure (Triple.write (fun t ht => ?_) fun _ h => h)
    subst ht
    exact appliedTo_modify (by simp [hrec]) fun _ => ⟨rfl, rfl, rfl, rfl, rfl⟩
  · have hrest : Triple (AppliedTo d e) _ (fun _ => AppliedTo d e) (· = d) :=
      markParent_triple (parentOf (normalizeDn e.dn)) d e
    refine Triple.bind ?_ fun _ => hrest
    refine Triple.call (fun t _ ht hok => ?_) (fun t _ ht herr => ?_) fun _ h => h <;> subst ht
    · split_ifs at hok ⊢
      exact appliedTo_insert t ⟨rfl, rfl, rfl, rfl, rfl⟩
    · split_ifs at herr ⊢
      rfl

/-- The records with the identifier are gone, and the others are as they were. -/
def Withdrawn (d : Directory) (uuid : String) (t : Directory) : Prop :=
  ∀ dn : String, t.entries[dn]? =
    d.entries[dn]?.filter fun rec : EntryRecord => rec.sourceUuid ≠ some uuid

/-- A failure changes nothing. -/
theorem applyLdapSyncDelete_spec (uuid : String) (d : Directory) :
    Triple (· = d) (applyLdapSyncDelete uuid) (fun _ => Withdrawn d uuid) (· = d) := by
  refine Triple.readThen ?_ rfl
  split
  · rename_i hempty
    refine Triple.pure fun t h dn => ?_
    rw [h]
    cases hrec : d.entries[dn]? with
    | none => rfl
    | some rec =>
      have hmem := Std.ExtTreeMap.mem_toList_iff_getElem?_eq_some.mpr hrec
      have hne := List.filter_eq_nil_iff.mp (List.isEmpty_iff.mp hempty) _ hmem
      exact (Option.filter_some_pos (by simpa using hne)).symm
  · refine Triple.thenPure (Triple.write (fun t ht dn => ?_) fun _ h => h)
    subst ht
    rw [Std.ExtTreeMap.getElem?_filter]
    cases t.entries[dn]? <;> simp

end Magnetite.Ldap
