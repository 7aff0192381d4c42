import Mathlib.Data.Finset.Union
import Magnetite.Ldap.Search

/-!
# What a modify does to an entry

An attribute is a set of values under a name without regard to case, and a modify is a list of
changes to such sets. The store keeps the values as lists under the names as they were spelled, and
readers merge the spellings. The two agree on entries and changes that spell each attribute in one
way, as long as no value is added twice. The password is not among the attributes, and the object
classes are a column of their own.
-/
namespace Magnetite.Ldap.Modify

open Magnetite.Lib Magnetite.Ldap.Db

/-! ### The changes as sets of values -/

/-- The values of each attribute by its name in lower case; an attribute that is absent has none. -/
abbrev Held := String → Finset String

/-- One change as RFC 4511 §4.6 has it. -/
def rfcStep (held : Held) (change : LdapAttrChange) : Held :=
  let name := Text.toAsciiLowercase change.attr
  Function.update held name (match change.op with
    | .add => held name ∪ change.values.toFinset
    | .delete => if change.values = [] then ∅ else held name \ change.values.toFinset
    | .replace => change.values.toFinset)

/-- The list has the values of the set, each once; there is no list for no value. -/
def Lists : Option (List String) → Finset String → Prop
  | none, values => values = ∅
  | some list, values => list ≠ [] ∧ list.Nodup ∧ list.toFinset = values

/-- What readers see of an entry are these values. -/
def Shows (view : Attributes) (held : Held) : Prop := ∀ name : String, Lists view[name]? (held name)

/-- The changes that are not about the password. -/
def ordinary (changes : List LdapAttrChange) : List LdapAttrChange :=
  changes.filter (!Text.eqIgnoreAsciiCase ·.attr "userPassword")

/-- A change that brings no value a second time. -/
def FreshChange (held : Held) (change : LdapAttrChange) : Prop :=
  match change.op with
  | .add => change.values ≠ [] ∧ change.values.Nodup ∧
      Disjoint (held (Text.toAsciiLowercase change.attr)) change.values.toFinset
  | .delete => True
  | .replace => change.values.Nodup

def Fresh : Held → List LdapAttrChange → Prop
  | _, [] => True
  | held, change :: rest => FreshChange held change ∧ Fresh (rfcStep held change) rest

/-- These names have one spelling each, and none is that of the object classes. -/
structure Spelled (names : Set String) : Prop where
  one : names.InjOn Text.toAsciiLowercase
  notClass : ∀ name ∈ names, Text.toAsciiLowercase name ≠ "objectclass"

/-- The names of an entry and of the changes. -/
def namesOf (attrs : Attributes) (changes : List LdapAttrChange) : Set String :=
  {name | name ∈ attrs ∨ ∃ change ∈ changes, change.attr = name}

/-! ### The view of an entry -/

section View

/-- One stored attribute is merged into the view. -/
def merge (view : Attributes) (a : String × List String) : Attributes :=
  view.insert (Text.toAsciiLowercase a.1) (view.getD (Text.toAsciiLowercase a.1) [] ++ a.2)

theorem getElem?_merge_of_ne {a : String × List String} {k : String}
    (h : Text.toAsciiLowercase a.1 ≠ k) (view : Attributes) : (merge view a)[k]? = view[k]? := by
  simp [merge, Std.ExtTreeMap.getElem?_insert, h]

theorem getElem?_foldl_merge {l : List (String × List String)} {k : String}
    (h : ∀ a ∈ l, Text.toAsciiLowercase a.1 ≠ k) (view : Attributes) :
    (l.foldl merge view)[k]? = view[k]? := by
  induction l generalizing view with
  | nil => rfl
  | cons a l ih =>
    rw [List.forall_mem_cons] at h
    rw [List.foldl_cons, ih h.2, getElem?_merge_of_ne h.1]

theorem getElem?_foldl_merge_of_mem {l : List (String × List String)} {a : String × List String}
    (hl : l.Pairwise fun a b => Text.toAsciiLowercase a.1 ≠ Text.toAsciiLowercase b.1) (ha : a ∈ l)
    {view : Attributes} (hview : view[Text.toAsciiLowercase a.1]? = none) :
    (l.foldl merge view)[Text.toAsciiLowercase a.1]? = some a.2 := by
  obtain ⟨front, back, rfl⟩ := List.append_of_mem ha
  obtain ⟨-, hback, hfront⟩ := List.pairwise_append.mp hl
  have hnone : (front.foldl merge view)[Text.toAsciiLowercase a.1]? = none := by
    rw [getElem?_foldl_merge fun b hb => hfront b hb a List.mem_cons_self, hview]
  rw [List.foldl_append, List.foldl_cons,
    getElem?_foldl_merge fun b hb => ((List.pairwise_cons.mp hback).1 b hb).symm]
  simp [merge, Std.ExtTreeMap.getD_eq_getD_getElem?, hnone]

theorem mem_of_mem_toList {attrs : Attributes} {a : String × List String} (h : a ∈ attrs.toList) :
    a.1 ∈ attrs := by
  rw [Std.ExtTreeMap.mem_iff_isSome_getElem?, Std.ExtTreeMap.mem_toList_iff_getElem?_eq_some.mp h]
  rfl

variable {e : DirectoryEntry} {names : Set String}

theorem attributeView_name (h : Spelled names) (hattrs : ∀ name ∈ e.attributes, name ∈ names)
    {name : String} (hname : name ∈ names) :
    (attributeView e)[Text.toAsciiLowercase name]? = e.attributes[name]? := by
  have hbase : (Std.ExtTreeMap.ofList [("objectclass", e.objectClasses)] : Attributes)[
      Text.toAsciiLowercase name]? = none := by
    simp [Std.ExtTreeMap.ofList_singleton, (h.notClass name hname).symm]
  have hkey {a : String × List String} (ha : a ∈ e.attributes.toList) : a.1 ∈ names :=
    hattrs a.1 (mem_of_mem_toList ha)
  change (e.attributes.toList.foldl merge _)[_]? = _
  cases hget : e.attributes[name]? with
  | none =>
    rw [getElem?_foldl_merge (fun a ha heq => ?_), hbase]
    obtain rfl := h.one (hkey ha) hname heq
    rw [Std.ExtTreeMap.mem_toList_iff_getElem?_eq_some.mp ha] at hget
    cases hget
  | some values =>
    refine @getElem?_foldl_merge_of_mem _ (name, values) ?_
      (Std.ExtTreeMap.mem_toList_iff_getElem?_eq_some.mpr hget) _ hbase
    have hdistinct := e.attributes.distinct_keys_toList
    refine hdistinct.imp_of_mem fun ha hb hne heq => ?_
    exact hne (Std.compare_eq_iff_eq.mpr (h.one (hkey ha) (hkey hb) heq))

theorem attributeView_other {k : String}
    (h : ∀ name ∈ e.attributes, Text.toAsciiLowercase name ≠ k) :
    (attributeView e)[k]? = if k = "objectclass" then some e.objectClasses else none := by
  change (e.attributes.toList.foldl merge _)[k]? = _
  rw [getElem?_foldl_merge fun a ha => h a.1 (mem_of_mem_toList ha)]
  rw [Std.ExtTreeMap.ofList_singleton, Std.ExtTreeMap.getElem?_insert]
  exact if_congr (Std.compare_eq_iff_eq.trans eq_comm) rfl rfl

end View

/-! ### One change -/

/-- The values that the store has under a name after a change of it. -/
def storedValues (change : LdapAttrChange) (stored : Option (List String)) : Option (List String) :=
  match change.op with
  | .add => some (stored.getD [] ++ change.values)
  | .replace => if change.values.isEmpty then none else some change.values
  | .delete =>
    if change.values.isEmpty then none
    else stored.bind fun existing =>
      let left := existing.filter (!change.values.contains ·)
      if left.isEmpty then none else some left

theorem getElem?_applyChange (attrs : Attributes) (change : LdapAttrChange) (name : String) :
    (attrs.applyChange change)[name]? =
      if name = change.attr then storedValues change attrs[name]? else attrs[name]? := by
  by_cases hname : name = change.attr
  · subst hname
    rw [if_pos rfl]
    unfold Attributes.applyChange storedValues
    cases change.op with
    | add => simp [Std.ExtTreeMap.getD_eq_getD_getElem?]
    | replace => by_cases h : change.values.isEmpty <;> simp [h]
    | delete =>
      by_cases h : change.values.isEmpty
      · simp [h]
      · cases hget : attrs[change.attr]? with
        | none => simp [h, hget]
        | some existing =>
          by_cases hleft : (existing.filter (!change.values.contains ·)).isEmpty <;>
            simp only [h, hleft, Bool.false_eq_true, if_false, if_true, Option.bind_some,
              Std.ExtTreeMap.getElem?_erase_self, Std.ExtTreeMap.getElem?_insert_self]
  · rw [if_neg hname]
    have hinsert (values : List String) :
        (attrs.insert change.attr values)[name]? = attrs[name]? := by
      rw [Std.ExtTreeMap.getElem?_insert, if_neg]
      simpa using Ne.symm hname
    have herase : (attrs.erase change.attr)[name]? = attrs[name]? := by
      rw [Std.ExtTreeMap.getElem?_erase, if_neg]
      simpa using Ne.symm hname
    unfold Attributes.applyChange
    split
    · exact hinsert _
    · split
      · exact herase
      · exact hinsert _
    · split
      · exact herase
      · split
        · rfl
        · dsimp only
          split
          · exact herase
          · exact hinsert _

/-- Under its name, a fresh change does to the list what it does to the set. -/
theorem Lists.storedValues {held : Held} {change : LdapAttrChange} {stored : Option (List String)}
    (h : Lists stored (held (Text.toAsciiLowercase change.attr)))
    (hfresh : FreshChange held change) :
    Lists (storedValues change stored)
      (rfcStep held change (Text.toAsciiLowercase change.attr)) := by
  have hset : (stored.getD []).Nodup ∧
      (stored.getD []).toFinset = held (Text.toAsciiLowercase change.attr) := by
    cases stored with
    | none => exact ⟨List.nodup_nil, h.symm⟩
    | some list => exact h.2
  unfold FreshChange at hfresh
  simp only [rfcStep, Function.update_self, Modify.storedValues]
  cases hop : change.op with
  | add =>
    simp only [hop] at hfresh
    obtain ⟨hne, hnodup, hdisjoint⟩ := hfresh
    refine ⟨by simp [hne], ?_, by rw [List.toFinset_append, hset.2]⟩
    refine hset.1.append hnodup fun value hold hnew => ?_
    rw [← hset.2] at hdisjoint
    exact Finset.disjoint_left.mp hdisjoint (List.mem_toFinset.mpr hold)
      (List.mem_toFinset.mpr hnew)
  | replace =>
    simp only [hop] at hfresh
    cases hvalues : change.values with
    | nil => rfl
    | cons value values => exact ⟨by simp, hvalues ▸ hfresh, rfl⟩
  | delete =>
    cases hvalues : change.values with
    | nil => rfl
    | cons value values =>
      rw [← hvalues]
      simp only [hvalues, List.isEmpty_cons, Bool.false_eq_true, if_false, reduceCtorEq]
      rw [← hvalues]
      have hleft : ((stored.getD []).filter (!change.values.contains ·)).toFinset =
          held (Text.toAsciiLowercase change.attr) \ change.values.toFinset := by
        rw [← hset.2]
        ext value
        simp
      cases stored with
      | none => exact hleft.symm
      | some existing =>
        dsimp only [Option.bind_some]
        split
        · rename_i hempty
          rw [Option.getD_some, List.isEmpty_iff.mp hempty] at hleft
          exact hleft.symm
        · rename_i hempty
          exact ⟨by simpa using hempty, hset.1.filter _, hleft⟩

section

variable {e : DirectoryEntry} {names : Set String}

theorem mem_applyChange {attrs : Attributes} {change : LdapAttrChange} {name : String}
    (h : name ∈ attrs.applyChange change) : name ∈ attrs ∨ name = change.attr := by
  by_cases hname : name = change.attr
  · exact .inr hname
  · rw [Std.ExtTreeMap.mem_iff_isSome_getElem?, getElem?_applyChange, if_neg hname] at h
    exact .inl (Std.ExtTreeMap.mem_iff_isSome_getElem?.mpr h)

/-- Readers see a change under the name it is about and nowhere else. -/
theorem attributeView_applyChange (h : Spelled names)
    (hattrs : ∀ name ∈ e.attributes, name ∈ names) {change : LdapAttrChange}
    (hchange : change.attr ∈ names) (k : String) :
    (attributeView { e with attributes := e.attributes.applyChange change })[k]? =
      if k = Text.toAsciiLowercase change.attr then storedValues change (attributeView e)[k]?
      else (attributeView e)[k]? := by
  have hattrs' : ∀ name ∈ e.attributes.applyChange change, name ∈ names := by
    intro name hname
    obtain hname | rfl := mem_applyChange hname
    · exact hattrs name hname
    · exact hchange
  by_cases hk : ∃ name ∈ names, Text.toAsciiLowercase name = k
  · obtain ⟨name, hname, rfl⟩ := hk
    rw [attributeView_name h hattrs' hname, attributeView_name h hattrs hname, getElem?_applyChange]
    exact if_congr ⟨fun heq => by rw [heq], h.one hname hchange⟩ rfl rfl
  · -- No stored name is read under this one, before or after.
    push Not at hk
    rw [if_neg (hk _ hchange).symm,
      attributeView_other fun name hname => hk name (hattrs' name hname),
      attributeView_other fun name hname => hk name (hattrs name hname)]

theorem Shows.applyChange (h : Spelled names) (hattrs : ∀ name ∈ e.attributes, name ∈ names)
    {change : LdapAttrChange} (hchange : change.attr ∈ names) {held : Held}
    (hshows : Shows (attributeView e) held) (hfresh : FreshChange held change) :
    Shows (attributeView { e with attributes := e.attributes.applyChange change })
      (rfcStep held change) := by
  intro k
  rw [attributeView_applyChange h hattrs hchange]
  split
  · rename_i hk
    subst hk
    exact (hshows _).storedValues hfresh
  · rename_i hk
    rw [rfcStep, Function.update_of_ne hk]
    exact hshows k

/-! ### A list of changes -/

/-- By induction on the list: the names stay among those that are spelled in one way. -/
theorem Shows.foldl (h : Spelled names) {attrs : Attributes} (hattrs : ∀ name ∈ attrs, name ∈ names)
    {changes : List LdapAttrChange} (hchanges : ∀ change ∈ changes, change.attr ∈ names)
    {held : Held} (hshows : Shows (attributeView { e with attributes := attrs }) held)
    (hfresh : Fresh held changes) :
    Shows (attributeView { e with attributes := changes.foldl Attributes.applyChange attrs })
      (changes.foldl rfcStep held) := by
  induction changes generalizing attrs held with
  | nil => exact hshows
  | cons change rest ih =>
    rw [List.forall_mem_cons] at hchanges
    refine ih (fun name hname => ?_) hchanges.2 ?_ hfresh.2
    · obtain hname | rfl := mem_applyChange hname
      · exact hattrs name hname
      · exact hchanges.1
    · exact Shows.applyChange (e := { e with attributes := attrs }) h hattrs hchanges.1 hshows
        hfresh.1

theorem attributeView_foldl (h : Spelled names) {attrs : Attributes}
    (hattrs : ∀ name ∈ attrs, name ∈ names) {changes : List LdapAttrChange}
    (hchanges : ∀ change ∈ changes, change.attr ∈ names) {k : String}
    (hk : ∀ change ∈ changes, Text.toAsciiLowercase change.attr ≠ k) :
    (attributeView { e with attributes := changes.foldl Attributes.applyChange attrs })[k]? =
      (attributeView { e with attributes := attrs })[k]? := by
  induction changes generalizing attrs with
  | nil => rfl
  | cons change rest ih =>
    rw [List.forall_mem_cons] at hchanges hk
    rw [List.foldl_cons, ih (fun name hname => ?_) hchanges.2 hk.2]
    · have := attributeView_applyChange (e := { e with attributes := attrs }) h hattrs hchanges.1 k
      rwa [if_neg hk.1.symm] at this
    · obtain hname | rfl := mem_applyChange hname
      · exact hattrs name hname
      · exact hchanges.1

end

/-! ### The program -/

section

variable {dn : String} {e : EntryRecord}

theorem total_updateEntry (f : Nat → EntryRecord → EntryRecord) :
    Total (fun d : Directory => d.entries[dn]? = some e)
      (do let now ← .now; updateEntry dn (f now))
      fun _ d => ∃ now, d.entries[dn]? = some (f now e) := by
  have hnow : Total (fun d : Directory => d.entries[dn]? = some e) (StoreM.now : DbM Nat)
      fun _ d => d.entries[dn]? = some e := Total.now fun _ _ h => h
  refine hnow.bind fun now => Total.write fun d hd => ⟨now, ?_⟩
  simp [hd]

theorem total_resetPassword (password : String) (hash : String → String) :
    Total (fun d => d.entries[normalizeDn dn]? = some e)
      (resetPassword dn password fun p => some (hash p))
      fun _ d => ∃ now, d.entries[normalizeDn dn]? = some
        { e with passwordRef := some (hash password), updatedAt := now } := by
  refine Total.pointwise fun d hd => Total.readThen ?_
  rw [hd]
  exact (total_updateEntry _).consequence (fun _ h => h ▸ hd) fun _ _ h => h

/-- What the entry is after a modify in a store that does not fail. -/
theorem total_modifyEntry (changes : List LdapAttrChange) (hash : String → String) :
    Total (fun d => d.entries[normalizeDn dn]? = some e)
      (modifyEntry dn changes fun p => some (hash p))
      fun found d => found = true ∧ ∃ now, d.entries[normalizeDn dn]? = some
        { e with
          attributes := modifiedAttributes changes e.attributes
          passwordRef := ((newPassword changes).map hash).or e.passwordRef
          updatedAt := now } := by
  refine Total.pointwise fun d hd => Total.readThen ?_
  rw [hd]
  have hwrite : Total (· = d) (writeAttributes dn (modifiedAttributes changes e.attributes))
      fun _ d => ∃ now, d.entries[normalizeDn dn]? = some
        { e with attributes := modifiedAttributes changes e.attributes, updatedAt := now } :=
    (total_updateEntry _).consequence (fun _ h => h ▸ hd) fun _ _ h => h
  refine hwrite.bind fun _ => ?_
  cases newPassword changes with
  | none => exact Total.pure fun d h => ⟨rfl, h⟩
  | some password =>
    refine Total.bind ?_ fun _ => Total.pure fun d h => ⟨rfl, h⟩
    refine Total.pointwise fun d hd => ?_
    obtain ⟨now, hd⟩ := hd
    exact (total_resetPassword password hash).consequence (fun _ h => h ▸ hd) fun _ _ h => h

/-- A change that adds or replaces the password. -/
def SetsPassword (change : LdapAttrChange) : Prop :=
  Text.toAsciiLowercase change.attr = "userpassword" ∧ change.op ≠ .delete

theorem setsPassword_iff (c : LdapAttrChange) :
    (Text.eqIgnoreAsciiCase c.attr "userPassword" && c.op ≠ .delete) = true ↔ SetsPassword c := by
  have hname : Text.toAsciiLowercase "userPassword" = "userpassword" := by decide +kernel
  simp [SetsPassword, Text.eqIgnoreAsciiCase, hname]

theorem newPassword_none {changes : List LdapAttrChange}
    (hnone : ∀ c ∈ changes, ¬ SetsPassword c) : newPassword changes = none := by
  rw [newPassword, List.filter_eq_nil_iff.mpr fun c hc h => hnone c hc ((setsPassword_iff c).mp h)]
  rfl

/-- The last change of the password counts, with its first value. -/
theorem newPassword_last {earlier later : List LdapAttrChange} {change : LdapAttrChange}
    (hsets : SetsPassword change) (hlast : ∀ c ∈ later, ¬ SetsPassword c) :
    newPassword (earlier ++ change :: later) = change.values.head? := by
  rw [newPassword, List.filter_append, List.filter_cons, if_pos ((setsPassword_iff change).mpr hsets),
    List.filter_eq_nil_iff.mpr fun c hc h => hlast c hc ((setsPassword_iff c).mp h),
    List.foldl_append]
  rfl

/-- In an entry that spells each attribute in one way, and for changes that spell them so and add no
value twice, readers see the values after the changes, and see no other attribute changed. The
hash of the first value of the last change of the password goes to its own column. -/
theorem modify_semantics {d : Directory} {changes : List LdapAttrChange} {hash : String → String}
    {held : Held} (he : d.entries[normalizeDn dn]? = some e)
    (hspelled : Spelled (namesOf e.attributes (ordinary changes)))
    (hshows : Shows (attributeView (e.intoEntry (normalizeDn dn))) held)
    (hfresh : Fresh held (ordinary changes)) :
    Total (· = d) (modifyEntry dn changes fun p => some (hash p)) fun found d' => found = true ∧
      ∃ e', d'.entries[normalizeDn dn]? = some e' ∧
        Shows (attributeView (e'.intoEntry (normalizeDn dn)))
          ((ordinary changes).foldl rfcStep held) ∧
        (∀ k : String, (∀ change ∈ ordinary changes, Text.toAsciiLowercase change.attr ≠ k) →
          (attributeView (e'.intoEntry (normalizeDn dn)))[k]? =
            (attributeView (e.intoEntry (normalizeDn dn)))[k]?) ∧
        (∀ earlier change later, changes = earlier ++ change :: later → SetsPassword change →
          (∀ c ∈ later, ¬ SetsPassword c) →
          e'.passwordRef = (change.values.head?.map hash).or e.passwordRef) ∧
        ((∀ c ∈ changes, ¬ SetsPassword c) → e'.passwordRef = e.passwordRef) := by
  refine (total_modifyEntry changes hash).consequence (fun _ h => h ▸ he) ?_
  rintro found d' ⟨hfound, now, hd'⟩
  have hattrs : ∀ name ∈ e.attributes, name ∈ namesOf e.attributes (ordinary changes) :=
    fun name hname => .inl hname
  have hchanges : ∀ change ∈ ordinary changes,
      change.attr ∈ namesOf e.attributes (ordinary changes) :=
    fun change hchange => .inr ⟨change, hchange, rfl⟩
  refine ⟨hfound, _, hd', ?_, fun k hk => ?_, ?_, fun hnone => ?_⟩
  · exact Shows.foldl (e := e.intoEntry (normalizeDn dn)) hspelled hattrs hchanges hshows hfresh
  · exact attributeView_foldl (e := e.intoEntry (normalizeDn dn)) hspelled hattrs hchanges hk
  · rintro earlier change later rfl hsets hlast
    rw [newPassword_last hsets hlast]
  · rw [newPassword_none hnone]
    rfl

end

/-! ### An entry with one address -/

namespace Sample

def entry : EntryRecord where
  rdn := "uid=amy"
  parentDn := none
  objectClasses := ["person"]
  structuralClass := "person"
  attributes := .ofList [("mail", ["a"])]
  enabled := true
  passwordRef := none
  hasChildren := false
  createdAt := 0
  updatedAt := 0
  createdBy := ""
  sourceUuid := none

def directory : Directory := ⟨.ofList [("uid=amy", entry)], [], []⟩

def held : Held := fun name =>
  if name = "mail" then {"a"} else if name = "objectclass" then {"person"} else ∅

theorem shows_entry : Shows (attributeView (entry.intoEntry "uid=amy")) held := by
  have hview : attributeView (entry.intoEntry "uid=amy") =
      ((∅ : Attributes).insert "mail" ["a"]).insert "objectclass" ["person"] := by decide +kernel
  intro name
  rw [hview, held]
  by_cases hmail : name = "mail"
  · subst hmail
    exact ⟨by decide, by decide, by decide⟩
  · by_cases hclass : name = "objectclass"
    · subst hclass
      exact ⟨by decide, by decide, by decide⟩
    · simp [Lists, hmail, hclass, Ne.symm hmail, Ne.symm hclass]

/-- The store after some changes. -/
def after (changes : List LdapAttrChange) : Directory :=
  (modifyEntry "uid=amy" changes (fun p => some ("#" ++ p)) (fun _ => 0) ⟨directory, [], 0⟩).2.db

/-- What readers see of the entry then. -/
def viewAfter (changes : List LdapAttrChange) : Attributes :=
  ((after changes).entries["uid=amy"]?.map fun e => attributeView (e.intoEntry "uid=amy")).getD ∅

/-- The password is no attribute, a name in capitals is another name, and a value is added twice. -/
theorem rfc_not_followed :
    Shows (attributeView (entry.intoEntry "uid=amy")) held ∧
    ∀ changes ∈ [[⟨.replace, "userPassword", ["x"]⟩], [⟨.delete, "MAIL", []⟩],
        [⟨.add, "mail", ["a"]⟩]],
      ¬ Shows (viewAfter changes) (changes.foldl rfcStep held) := by
  refine ⟨shows_entry, ?_⟩
  have hpassword : (viewAfter [⟨.replace, "userPassword", ["x"]⟩])["userpassword"]? = none := by
    decide +kernel
  have hcapitals : (viewAfter [⟨.delete, "MAIL", []⟩])["mail"]? = some ["a"] := by decide +kernel
  have htwice : (viewAfter [⟨.add, "mail", ["a"]⟩])["mail"]? = some ["a", "a"] := by decide +kernel
  simp only [List.forall_mem_cons, List.foldl_cons, List.foldl_nil]
  refine ⟨fun h => ?_, fun h => ?_, fun h => ?_, fun _ h => by cases h⟩
  · have := h "userpassword"
    rw [hpassword] at this
    exact absurd this (by rw [Lists]; decide +kernel)
  · have := h "mail"
    rw [hcapitals] at this
    exact absurd this.2.2 (by decide +kernel)
  · have := h "mail"
    rw [htwice] at this
    exact absurd this.2.1 (by decide)

def withPassword : List LdapAttrChange :=
  [⟨.replace, "userPassword", ["w"]⟩, ⟨.add, "mail", ["b"]⟩, ⟨.add, "USERPASSWORD", ["x", "y"]⟩]

theorem modify_semantics_added :
    ∃ e, (after withPassword).entries["uid=amy"]? = some e ∧
      Shows (attributeView (e.intoEntry "uid=amy")) (rfcStep held ⟨.add, "mail", ["b"]⟩) ∧
      e.passwordRef = some "#x" := by
  have hdn : normalizeDn "uid=amy" = "uid=amy" := by decide +kernel
  have hordinary : ordinary withPassword = [⟨.add, "mail", ["b"]⟩] := by decide +kernel
  have hnames : namesOf entry.attributes [⟨.add, "mail", ["b"]⟩] = {"mail"} := by
    ext name
    simp only [namesOf, entry, Std.ExtTreeMap.ofList_singleton, Std.ExtTreeMap.mem_insert,
      Std.compare_eq_iff_eq, Std.ExtTreeMap.not_mem_empty, or_false, List.mem_singleton,
      exists_eq_left, or_self, Set.mem_ofPred_eq, Set.mem_singleton_iff]
    exact eq_comm
  have h := @modify_semantics "uid=amy" entry directory withPassword ("#" ++ ·) held
    (by decide +kernel)
    (by
      rw [hordinary, hnames]
      refine ⟨Set.injOn_singleton _ _, fun name hname => ?_⟩
      rw [Set.mem_singleton_iff.mp hname]
      decide +kernel)
    (by rw [hdn]; exact shows_entry)
    (by
      rw [hordinary]
      exact ⟨⟨by decide, by decide, by decide +kernel⟩, trivial⟩)
  obtain ⟨found, t, hrun, -, -, e, he, hview, -, hpassword, -⟩ :=
    h.run (fun _ => 0) ⟨directory, [], 0⟩ rfl rfl
  rw [hdn, hordinary] at hview
  rw [hdn] at he
  have hlast := hpassword (withPassword.take 2) ⟨.add, "USERPASSWORD", ["x", "y"]⟩ [] rfl
    ⟨by decide +kernel, by decide⟩ (by simp)
  exact ⟨e, by rw [after, hrun]; exact he, hview, hlast⟩

end Sample

end Magnetite.Ldap.Modify
