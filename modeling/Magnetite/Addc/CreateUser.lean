import Mathlib.Logic.Function.Basic
import Mathlib.Data.List.Range
import Mathlib.Algebra.BigOperators.Group.List.Basic
import Magnetite.Addc.Directory
import Magnetite.Ldap.Directory

/-!
# Creating an account over SAMR

`SamrCreateUser2InDomain` gives an account an identifier and registers it with the KDC under an
initial password; a task in the background writes its row in the database and, for a machine
account, its entry in the LDAP tree. Nothing is checked against the accounts that exist. Calls to
the database are taken to succeed; the derivation of keys and the hash are arbitrary functions.
-/
namespace Magnetite.Addc

open Magnetite.Lib
open Magnetite.Krb5 (PrincipalStore accountKeys lookupKey machineFqdn machineSpnAliases)

/-- A SAMR interface with its counter in memory and the accounts created through it. -/
structure SamrState where
  nextRid : Nat
  created : List (Nat × String)

def firstCreatedRid : Nat := 1100

section Request

/-- The 32 bits at an offset, least byte first. -/
def u32At (bytes : List UInt8) (offset : Nat) : Nat :=
  ((bytes.drop offset).take 4).foldr (fun b n => b.toNat + 256 * n) 0

/-- The character of a code unit, which is none for a surrogate. -/
def charOfUnit (unit : Nat) : Option Char :=
  if h : unit.isValidChar then some (Char.ofNatAux unit h) else none

/-- The name in a request: the pointer at 24, the count at 36, and the code units from 40 on. -/
def parseUnicodeStringArg (stub : List UInt8) : Option String :=
  let actual := u32At stub 36
  if stub.length < 40 ∨ u32At stub 24 = 0 ∨ stub.length < 40 + actual * 2 then none
  else
    let unit (i : Nat) := ((stub.drop (40 + i * 2)).take 2).foldr (fun b n => b.toNat + 256 * n) 0
    ((List.range actual).mapM fun i => charOfUnit (unit i)).map String.ofList

/-- The name of the account that a request creates. -/
def createdName (stub : List UInt8) : String := (parseUnicodeStringArg stub).getD "MACHINE$"

variable (lower : String → String)

/-- The initial password of a computer: its name in lower case, cut to 14 characters. -/
def machineInitialPassword (name : String) : String :=
  .ofList ((lower (Text.trimEndMatches '$' name)).toList.take 14)

end Request

section Call

/-- What a domain controller holds about accounts. -/
structure Site (κ : Type) where
  directory : Directory κ
  kdc : PrincipalStore κ
  store : Store κ
  ldap : Ldap.Directory
  samr : SamrState

/-- The functions that turn passwords into keys. -/
structure KeyFunctions (κ : Type) where
  ntHash : String → κ
  /-- The key of a machine account of a realm. -/
  machineKey : String → String → String → Option κ
  /-- The key of a user of a realm. -/
  userKey : String → String → String → Option κ

variable {κ : Type} (lower : String → String) (keys : KeyFunctions κ)

/-- `create_user`: the identifier of the allocator, or else of the counter in memory. -/
def SamrState.createUser (st : SamrState) (allocated : Option Nat) (name : String) :
    SamrState × Nat :=
  let rid := allocated.getD st.nextRid
  (⟨if allocated.isSome then st.nextRid else st.nextRid + 1, st.created ++ [(rid, name)]⟩, rid)

/-- The DN of the domain. -/
def realmBaseDn (realm : String) : String :=
  "dc=" ++ .ofList ((lower realm).toList.flatMap fun c => if c = '.' then ",dc=".toList else [c])

/-- The key that `persist_account` stores: the one given, else one that is derived. -/
def storedKey (realm name : String) (kerberosKey : Option κ) : Option κ :=
  kerberosKey.or (keys.userKey realm name (machineInitialPassword lower name))

/-- The row that a created account is given. -/
def initialRow (rid : Nat) (name : String) (key : κ) : AdPrincipal κ :=
  ⟨rid, keys.ntHash (machineInitialPassword lower name), some key, false⟩

/-- The key under which a created account is registered with the KDC. -/
def initialKey (realm name : String) : Option κ :=
  keys.machineKey realm name (machineInitialPassword lower name)

/-- The computer entry of a machine account, with the reading of the clock. -/
def persistComputer (clock : Nat → Nat) (realm name : String) (ldap : Ldap.Directory) :
    Ldap.Directory :=
  if Text.endsWithChar '$' name then
    (Ldap.Db.ensureComputerEntry (realmBaseDn lower realm) name (machineFqdn lower realm name)
      0x1002 "magnetite-addc" clock ⟨ldap, [], 0⟩).2.db
  else ldap

/-- `SamrCreateUser2InDomain` on a stub, with the task in the background run to its end. Without a
domain handle nothing is done. -/
def createUser2 (clock : Nat → Nat) (s : Site κ) (domainHandle : Bool) (allocated : Option Nat)
    (stub : List UInt8) : Site κ :=
  if domainHandle then
    let name := createdName stub
    let realm := s.kdc.realm
    let (samr, rid) := s.samr.createUser allocated name
    let key := initialKey lower keys realm name
    { s with
      samr
      kdc := key.elim s.kdc (s.kdc.registerMachineUtf16 lower name)
      store := (storedKey lower keys realm name key).elim s.store fun stored =>
        s.store.upsertAdPrincipal name (initialRow lower keys rid name stored)
      ldap := persistComputer lower clock realm name s.ldap }
  else s

/-- The account is in the database or in the directory. -/
def Site.Account (s : Site κ) (sam : String) : Prop :=
  sam ∈ s.store.principals ∨
    ∃ user ∈ s.directory.users ++ s.directory.runtimeUsers, user.samAccountName = sam

/-- A name stands for somebody: the KDC finds a principal, or it is a name of an account that
exists, whether the KDC has that account or not. -/
def Site.Claimed (s : Site κ) (name : List String) : Prop :=
  (s.kdc.get lower name).isSome ∨
    ∃ sam, s.Account sam ∧ lookupKey lower name ∈ accountKeys lower s.kdc.realm sam

/-- Every account that exists is as it was: in the directory, in the rows and groups of the
database, in the flags of the LDAP entries and in the KDC. -/
structure Preserved (s t : Site κ) : Prop where
  users : ∀ sam u, s.directory.findUser sam = some u → t.directory.findUser sam = some u
  members : ∀ rid, t.directory.groupMembers rid = s.directory.groupMembers rid
  rows : ∀ (sam : String) (row : AdPrincipal κ), s.store.principals[sam]? = some row →
    t.store.principals[sam]? = some row
  groups : t.store.groups = s.store.groups
  entries : ∀ (dn : String) (e : Ldap.EntryRecord), s.ldap.entries[dn]? = some e →
    ∃ e', t.ldap.entries[dn]? = some e' ∧
      e'.attributes["userAccountControl"]? = e.attributes["userAccountControl"]?
  kdc : ∀ name, s.Claimed lower name → t.kdc.get lower name = s.kdc.get lower name
  revoked : t.kdc.revoked = s.kdc.revoked

/-- The DN of a computer's entry: below the root, which is made if its own DN is free. -/
def computerDn (realm name : String) (ldap : Ldap.Directory) : Option String :=
  let below (base : String) :=
    Ldap.normalizeDn ("cn=" ++ Text.trimEndMatches '$' name ++ "," ++ base)
  let configured := Ldap.normalizeDn (realmBaseDn lower realm)
  match ldap.entries.toList.find? (·.2.structuralClass == Ldap.ocDomain) with
  | some root => some (below root.1)
  | none => if configured ∈ ldap.entries then none else some (below configured)

/-- No account is in the way: no row has the name, the names of a computer of that name stand for
nobody (or are revoked in the KDC), and no LDAP entry stands at the DN of the computer, unless what
is there is what the call writes. -/
structure Unclaimed (s : Site κ) (rid : Nat) (name : String) : Prop where
  row : ∀ row, s.store.principals[name]? = some row →
    ∀ key, storedKey lower keys s.kdc.realm name (initialKey lower keys s.kdc.realm name) = some key →
      row = initialRow lower keys rid name key
  kdc : ∀ key, initialKey lower keys s.kdc.realm name = some key →
    ∀ spn ∈ machineSpnAliases lower s.kdc.realm name, s.Claimed lower spn →
      lookupKey lower spn ∉ s.kdc.revoked → s.kdc.get lower spn =
        ((PrincipalStore.new s.kdc.realm).registerMachineUtf16 lower name key).get lower spn
  entry : Text.endsWithChar '$' name → ∀ dn, computerDn lower s.kdc.realm name s.ldap = some dn →
    ∀ e : Ldap.EntryRecord, s.ldap.entries[dn]? = some e →
      e.attributes["userAccountControl"]? = some ["4098"]

end Call

section Kdc

variable {κ : Type} {lower : String → String} {store : PrincipalStore κ} {sam : String} {key : κ}

/-- What is found under a lookup key after a machine is registered: what a new store finds, else
what was found before. -/
theorem lookup_insertMachine_or (k : String) :
    (store.insertMachine lower sam key).dynamic.lookup k =
      (((PrincipalStore.new store.realm).insertMachine lower sam key).dynamic.lookup k).or
        (store.dynamic.lookup k) := by
  unfold PrincipalStore.insertMachine
  simp only [PrincipalStore.new]
  generalize machineSpnAliases lower store.realm sam = aliases
  generalize store.dynamic = dynamic
  induction aliases generalizing dynamic with
  | nil => simp
  | cons name aliases ih =>
    rw [List.foldl_cons, List.foldl_cons, ih (AList.insert _ _ dynamic), ih (AList.insert _ _ ∅),
      Option.or_assoc]
    congr 1
    by_cases hk : k = lookupKey lower name
    · subst hk
      rw [AList.lookup_insert, AList.lookup_insert, Option.some_or]
    · rw [AList.lookup_insert_ne hk, AList.lookup_insert_ne hk]
      simp

theorem get_new_registered (realm : String) (name : List String) :
    ((PrincipalStore.new realm).registerMachineUtf16 lower sam key).get lower name =
      ((PrincipalStore.new realm).insertMachine lower sam key).dynamic.lookup
        (lookupKey lower name) := by
  simp [PrincipalStore.get, PrincipalStore.registerMachineUtf16, PrincipalStore.insertMachine,
    PrincipalStore.new]

theorem get_congr {name name' : List String} (h : lookupKey lower name = lookupKey lower name') :
    store.get lower name = store.get lower name' := by
  unfold PrincipalStore.get
  rw [h]

theorem Site.Claimed.congr {s : Site κ} {name name' : List String}
    (h : lookupKey lower name = lookupKey lower name') (hclaimed : s.Claimed lower name) :
    s.Claimed lower name' := by
  unfold Site.Claimed at *
  rwa [← get_congr h, ← h]

/-- A name that is not revoked is found as a new store finds it, else as before. -/
theorem get_registered {name : List String} (hlive : lookupKey lower name ∉ store.revoked) :
    (store.registerMachineUtf16 lower sam key).get lower name =
      (((PrincipalStore.new store.realm).registerMachineUtf16 lower sam key).get lower name).or
        (store.get lower name) := by
  have hold : store.get lower name = (store.dynamic.lookup (lookupKey lower name)).or
      (store.principals.lookup (lookupKey lower name)) := by
    simp [PrincipalStore.get, hlive]
  have hnew : (store.registerMachineUtf16 lower sam key).get lower name =
      ((store.insertMachine lower sam key).dynamic.lookup (lookupKey lower name)).or
        (store.principals.lookup (lookupKey lower name)) := by
    simp [PrincipalStore.get, PrincipalStore.registerMachineUtf16, PrincipalStore.insertMachine,
      hlive]
  rw [hnew, lookup_insertMachine_or, Option.or_assoc, hold, get_new_registered]

/-- A new store finds a machine under all its names. -/
theorem get_registered_alias {spn : List String}
    (hspn : spn ∈ machineSpnAliases lower store.realm sam)
    (hlive : lookupKey lower spn ∉ store.revoked) :
    (store.registerMachineUtf16 lower sam key).get lower spn =
      ((PrincipalStore.new store.realm).registerMachineUtf16 lower sam key).get lower spn := by
  have hsome : (((PrincipalStore.new store.realm).insertMachine lower sam key).dynamic.lookup
      (lookupKey lower spn)).isSome :=
    AList.lookup_isSome.mpr ((PrincipalStore.mem_insertMachine lower).mpr
      (.inl (List.mem_map_of_mem hspn)))
  obtain ⟨q, hq⟩ := Option.isSome_iff_exists.mp hsome
  rw [get_registered hlive, get_new_registered, hq, Option.some_or]

/-- Registering a machine leaves the claimed names in the KDC as they were exactly if those among
the names of the machine that are not revoked are found as in a new store. -/
theorem kdc_preserved_iff {claimed : List String → Prop}
    (hclaimed : ∀ a b, lookupKey lower a = lookupKey lower b → claimed a → claimed b) :
    (∀ name, claimed name → (store.registerMachineUtf16 lower sam key).get lower name =
        store.get lower name) ↔
      ∀ spn ∈ machineSpnAliases lower store.realm sam, claimed spn →
        lookupKey lower spn ∉ store.revoked → store.get lower spn =
          ((PrincipalStore.new store.realm).registerMachineUtf16 lower sam key).get lower spn := by
  constructor
  · intro h spn hspn hc hlive
    rw [← h spn hc, get_registered_alias hspn hlive]
  · intro h name hc
    by_cases hkey : lookupKey lower name ∈
        (machineSpnAliases lower store.realm sam).map (lookupKey lower)
    · -- the name is found as the alias with the same lookup key
      obtain ⟨spn, hspn, heq⟩ := List.mem_map.mp hkey
      rw [← get_congr heq, ← get_congr heq]
      by_cases hlive : lookupKey lower spn ∈ store.revoked
      · rw [PrincipalStore.get_eq_none_of_revoked lower hlive]
        exact PrincipalStore.get_eq_none_of_revoked lower hlive
      · rw [get_registered_alias hspn hlive, h spn hspn (hclaimed _ _ heq.symm hc) hlive]
    · exact PrincipalStore.get_registerMachineUtf16 lower hkey

end Kdc

section Entries

open Ldap (EntryRecord normalizeDn normalizeDn_normalizeDn)
open Ldap.Db

variable {before : Ldap.Directory} {target : Option String}

/-- The flags of all entries of a directory but one are as they were. -/
def FlagsKept (before : Ldap.Directory) (target : Option String) (d : Ldap.Directory) : Prop :=
  ∀ (dn : String) (e : EntryRecord), before.entries[dn]? = some e → target ≠ some dn →
    ∃ e', d.entries[dn]? = some e' ∧
      e'.attributes["userAccountControl"]? = e.attributes["userAccountControl"]?

theorem FlagsKept.refl (d : Ldap.Directory) (target : Option String) : FlagsKept d target d :=
  fun _ e he _ => ⟨e, he, rfl⟩

/-- An update of the entry itself, or one that leaves the attributes alone. -/
theorem keeps_updateEntry {dn : String} {f : EntryRecord → EntryRecord}
    (h : target = some dn ∨ ∀ e, (f e).attributes = e.attributes) :
    Keeps (FlagsKept before target) (updateEntry dn f) := by
  refine Keeps.write fun d hd dn' e he hne => ?_
  obtain ⟨e', he', hflags⟩ := hd dn' e he hne
  by_cases hdn : dn = dn'
  · subst hdn
    refine ⟨f e', by simp [he'], ?_⟩
    rw [← hflags, (h.resolve_left fun ht => hne ht) e']
  · exact ⟨e', by simp [Std.ExtTreeMap.getElem?_modify, hdn, he'], hflags⟩

theorem keeps_createRow (dn : String) (rec : EntryRecord) :
    Keeps (FlagsKept before target) (createRow dn rec) := by
  refine Triple.call ?_ ?_ fun _ hs => hs
  · intro d _ hd hok dn' e he hne
    obtain ⟨e', he', hflags⟩ := hd dn' e he hne
    by_cases hmem : dn ∈ d.entries
    · simp [hmem] at hok
    · have hother : dn ≠ dn' := by
        rintro rfl
        exact hmem (Std.ExtTreeMap.mem_iff_isSome_getElem?.mpr (by simp [he']))
      exact ⟨e', by simp [hmem, Std.ExtTreeMap.getElem?_insert, hother, he'], hflags⟩
  · intro d _ hd herr
    by_cases hmem : dn ∈ d.entries
    · simpa [hmem] using hd
    · simp [hmem] at herr

theorem keeps_resetPassword {dn : String} (h : target = some (normalizeDn dn)) (password : String)
    (hash : String → Option String) :
    Keeps (FlagsKept before target) (resetPassword dn password hash) := by
  refine Keeps.bind (Keeps.read _ _) fun found => ?_
  cases found with
  | none => exact Keeps.fail _
  | some _ =>
    cases hash password with
    | none => exact Keeps.fail _
    | some hash => exact Keeps.bind Keeps.now fun _ => keeps_updateEntry (.inl h)

theorem keeps_createEntry {dn : String} (h : target = some (normalizeDn dn)) (classes : List String)
    (attributes : Ldap.Attributes) (actor : String) (hash : String → Option String) :
    Keeps (FlagsKept before target) (createEntry dn classes attributes actor hash) := by
  have hinsert (rec : EntryRecord) :
      Keeps (FlagsKept before target) (insertEntry (normalizeDn dn) rec) := by
    refine Keeps.bind (Keeps.read _ _) fun found => ?_
    split_ifs
    · exact Keeps.fail _
    · split
      · exact keeps_createRow _ _
      · refine Keeps.bind (Keeps.bind (Keeps.read _ _) fun _ => Keeps.pure _) fun there => ?_
        split_ifs
        · exact Keeps.fail _
        · exact Keeps.bind (keeps_createRow _ _) fun _ => keeps_updateEntry (.inr fun _ => rfl)
  refine Keeps.bind Keeps.now fun _ => Keeps.bind (hinsert _) fun _ => ?_
  split
  · exact keeps_resetPassword (by rw [normalizeDn_normalizeDn, h]) _ hash
  · exact Keeps.pure _

theorem keeps_modifyEntry {dn : String} (h : target = some (normalizeDn dn))
    (changes : List Ldap.LdapAttrChange) (hash : String → Option String) :
    Keeps (FlagsKept before target) (modifyEntry dn changes hash) := by
  refine Keeps.bind (Keeps.read _ _) fun found => ?_
  cases found with
  | none => exact Keeps.pure _
  | some entry =>
    refine Keeps.bind (Keeps.bind Keeps.now fun _ => keeps_updateEntry (.inl h)) fun _ => ?_
    split
    · exact Keeps.bind (keeps_resetPassword h _ hash) fun _ => Keeps.pure _
    · exact Keeps.pure _

variable {κ : Type} {lower : String → String} {realm name : String}

/-- A row is made only where there is none. -/
theorem createRow_free (dn : String) (rec : EntryRecord) :
    Triple (· = before) (createRow dn rec)
      (fun _ d => FlagsKept before target d ∧ dn ∉ before.entries) (FlagsKept before target) := by
  refine Triple.call ?_ ?_ (by rintro _ rfl; exact .refl _ _)
  · intro d _ hd hok
    obtain rfl := hd.symm
    by_cases hmem : dn ∈ before.entries
    · simp [hmem] at hok
    · refine ⟨fun dn' e he _ => ⟨e, ?_, rfl⟩, hmem⟩
      have hother : dn ≠ dn' := by
        rintro rfl
        exact hmem (Std.ExtTreeMap.mem_iff_isSome_getElem?.mpr (by simp [he]))
      simp [hmem, Std.ExtTreeMap.getElem?_insert, hother, he]
  · intro d _ hd herr
    obtain rfl := hd.symm
    by_cases hmem : dn ∈ before.entries
    · simpa [hmem] using FlagsKept.refl before target
    · simp [hmem] at herr

/-- The root is there or made, and then the DN of the computer is the one below it. -/
theorem ensureLdapBase_below (name actor : String) :
    Triple (· = before) (ensureLdapBase (realmBaseDn lower realm) actor)
      (fun base d => FlagsKept before target d ∧ computerDn lower realm name before =
        some (normalizeDn ("cn=" ++ Text.trimEndMatches '$' name ++ "," ++ base)))
      (FlagsKept before target) := by
  refine Triple.readThen ?_ (.refl _ _)
  cases hroot : before.entries.toList.find? (·.2.structuralClass == Ldap.ocDomain) with
  | some root =>
    refine Triple.pure ?_
    rintro _ rfl
    exact ⟨.refl _ _, by simp [computerDn, hroot]⟩
  | none =>
    have hnow : Triple (· = before) (StoreM.now : Ldap.DbM Nat) (fun _ d => d = before)
      (FlagsKept before target) := Triple.now fun _ _ hd => hd
    refine hnow.bind fun now => (createRow_free _ _).bind fun _ => Triple.pure ?_
    rintro d ⟨hkept, hfree⟩
    exact ⟨hkept, by simp [computerDn, hroot, hfree]⟩

theorem ensureComputerEntry_keeps (host : String) (uac : Nat) (actor : String) :
    Triple (· = before)
      (ensureComputerEntry (realmBaseDn lower realm) name host uac actor)
      (fun _ => FlagsKept before (computerDn lower realm name before))
      (FlagsKept before (computerDn lower realm name before)) := by
  refine (ensureLdapBase_below name actor).bind fun base => Triple.assuming fun htarget => ?_
  rw [htarget]
  refine Keeps.bind (Keeps.read _ _) fun found => ?_
  split_ifs
  · exact Keeps.bind (keeps_modifyEntry (by rw [normalizeDn_normalizeDn]) _ _) fun _ => Keeps.pure _
  · exact keeps_createEntry (by rw [normalizeDn_normalizeDn]) _ _ _ _

/-- The root is found or made while an entry below it stays. -/
theorem ensureLdapBase_found {dn : String} {e : EntryRecord} {actor : String}
    (hdn : computerDn lower realm name before = some dn) (he : before.entries[dn]? = some e) :
    Total (· = before) (ensureLdapBase (realmBaseDn lower realm) actor)
      (fun base d => d.entries[dn]? = some e ∧
        dn = normalizeDn ("cn=" ++ Text.trimEndMatches '$' name ++ "," ++ base)) := by
  refine Total.readThen ?_
  cases hroot : before.entries.toList.find? (·.2.structuralClass == Ldap.ocDomain) with
  | some root =>
    refine Total.pure ?_
    rintro _ rfl
    exact ⟨he, by simpa [computerDn, hroot] using hdn.symm⟩
  | none =>
    by_cases hmem : normalizeDn (realmBaseDn lower realm) ∈ before.entries
    · simp [computerDn, hroot, hmem] at hdn
    · have hother : normalizeDn (realmBaseDn lower realm) ≠ dn := by
        rintro rfl
        exact hmem (Std.ExtTreeMap.mem_iff_isSome_getElem?.mpr (by simp [he]))
      have hnow : Total (· = before) (StoreM.now : Ldap.DbM Nat) fun _ d => d = before :=
        Total.now fun _ _ hd => hd
      refine hnow.bind fun now => ?_
      have hcreate (rec : EntryRecord) : Total (· = before)
          (createRow (normalizeDn (realmBaseDn lower realm)) rec)
          (fun _ d => d.entries[dn]? = some e) := by
        refine Total.call ?_
        rintro _ rfl
        exact ⟨(), by simp [hmem], by simp [hmem, Std.ExtTreeMap.getElem?_insert, hother, he]⟩
      refine (hcreate _).bind fun _ => Total.pure fun d hd => ⟨hd, ?_⟩
      simpa [computerDn, hroot, hmem] using hdn.symm

/-- An entry that is there ends up with the last flags among changes without a password. -/
theorem modifyEntry_flags {d : Ldap.Directory} {dn : String} {e : EntryRecord}
    {changes : List Ldap.LdapAttrChange} {flags : List String} (hdn : normalizeDn dn = dn)
    (he : d.entries[dn]? = some e) (hpassword : newPassword changes = none)
    (hflags : (modifiedAttributes changes e.attributes)["userAccountControl"]? = some flags) :
    Total (· = d) (modifyEntry dn changes fun _ => none) (fun _ d => ∃ e', d.entries[dn]? = some e' ∧
      e'.attributes["userAccountControl"]? = some flags) := by
  refine Total.readThen ?_
  simp only [hdn, he, hpassword]
  have hnow : Total (· = d) (StoreM.now : Ldap.DbM Nat) fun _ d' => d' = d :=
    Total.now fun _ _ h => h
  refine Total.bind (hnow.bind fun now => Total.write ?_) fun _ => Total.pure fun _ h => h
  rintro _ rfl
  refine ⟨{ e with attributes := modifiedAttributes changes e.attributes, updatedAt := now }, ?_,
    hflags⟩
  simp [hdn, he]

/-- Where the entry is there, it ends up with the flags given. -/
theorem ensureComputerEntry_flags {dn : String} {e : EntryRecord} {host actor : String} {uac : Nat}
    (hdn : computerDn lower realm name before = some dn) (he : before.entries[dn]? = some e) :
    Total (· = before)
      (ensureComputerEntry (realmBaseDn lower realm) name host uac actor)
      (fun _ d => ∃ e', d.entries[dn]? = some e' ∧
        e'.attributes["userAccountControl"]? = some [toString uac]) := by
  refine (ensureLdapBase_found hdn he).bind fun base => Total.pointwise ?_
  rintro d ⟨hd, rfl⟩
  refine Total.readThen ?_
  rw [normalizeDn_normalizeDn, hd, Option.isSome_some, if_pos rfl]
  have hplain : ∀ a ∈ ["dNSHostName", "sAMAccountName", "userAccountControl"],
      Text.eqIgnoreAsciiCase a "userPassword" = false := by decide
  refine Total.bind (modifyEntry_flags (normalizeDn_normalizeDn _) hd ?_ ?_) fun _ =>
    Total.pure fun _ h => h
  · simp [newPassword, hplain]
  · simp [modifiedAttributes, hplain, Ldap.Attributes.applyChange]

/-- The flags of all entries stay as they are exactly if the entry of the computer, where it is
there, has the flags that it is given. -/
theorem entries_preserved_iff {clock : Nat → Nat} :
    (∀ (dn : String) (e : EntryRecord), before.entries[dn]? = some e →
        ∃ e', (persistComputer lower clock realm name before).entries[dn]? = some e' ∧
          e'.attributes["userAccountControl"]? = e.attributes["userAccountControl"]?) ↔
      (Text.endsWithChar '$' name → ∀ dn, computerDn lower realm name before = some dn →
        ∀ e : EntryRecord, before.entries[dn]? = some e →
          e.attributes["userAccountControl"]? = some ["4098"]) := by
  by_cases hmachine : Text.endsWithChar '$' name
  · have hcall : persistComputer lower clock realm name before =
        (ensureComputerEntry (realmBaseDn lower realm) name (machineFqdn lower realm name)
          0x1002 "magnetite-addc" clock ⟨before, [], 0⟩).2.db := if_pos hmachine
    have hwritten {dn : String} {e : EntryRecord} (hdn : computerDn lower realm name before = some dn)
        (he : before.entries[dn]? = some e) :
        ∃ e', (persistComputer lower clock realm name before).entries[dn]? = some e' ∧
          e'.attributes["userAccountControl"]? = some ["4098"] := by
      obtain ⟨_, t, hrun, -, hpost⟩ := (ensureComputerEntry_flags hdn he).run clock
        ⟨before, [], 0⟩ rfl rfl
      rw [hcall, hrun]
      exact hpost
    constructor
    · intro h _ dn hdn e he
      obtain ⟨e', he', hflags⟩ := h dn e he
      obtain ⟨e'', he'', hnew⟩ := hwritten hdn he
      obtain rfl : e' = e'' := Option.some.inj (he'.symm.trans he'')
      rw [← hflags, hnew]
    · intro h dn e he
      by_cases hdn : computerDn lower realm name before = some dn
      · obtain ⟨e', he', hnew⟩ := hwritten hdn he
        exact ⟨e', he', by rw [hnew, h hmachine dn hdn e he]⟩
      · have htriple : Triple (· = before)
            (ensureComputerEntry (realmBaseDn lower realm) name (machineFqdn lower realm name)
              0x1002 "magnetite-addc") _ _ := ensureComputerEntry_keeps _ _ _
        have hkeeps := htriple.run clock ⟨before, [], 0⟩ rfl
        rw [hcall]
        split at hkeeps
        · rename_i hrun
          rw [hrun]
          exact hkeeps dn e he hdn
        · rename_i hrun
          rw [hrun]
          exact hkeeps dn e he hdn
  · have hsame : persistComputer lower clock realm name before = before := if_neg hmachine
    rw [hsame]
    exact ⟨fun _ h => absurd h hmachine, fun _ dn e he => ⟨e, he, rfl⟩⟩

end Entries

section Preserved

variable {κ : Type} {lower : String → String} {keys : KeyFunctions κ}

theorem rows_preserved_iff {store : Store κ} {name : String} {row' : AdPrincipal κ} :
    (∀ (sam : String) (row : AdPrincipal κ), store.principals[sam]? = some row →
        (store.upsertAdPrincipal name row').principals[sam]? = some row) ↔
      ∀ row, store.principals[name]? = some row → row = row' := by
  constructor
  · intro h row hrow
    have := h name row hrow
    simp only [Store.upsertAdPrincipal, Std.ExtTreeMap.getElem?_insert_self,
      Option.some.injEq] at this
    exact this.symm
  · intro h sam row hrow
    by_cases hsam : name = sam
    · subst hsam
      simp [Store.upsertAdPrincipal, h row hrow]
    · simpa [Store.upsertAdPrincipal, Std.ExtTreeMap.getElem?_insert, hsam] using hrow

/-- A call to create an account leaves every account that exists as it was exactly if no account is
in the way of the new one. -/
theorem create_user_preserves_iff (lower : String → String) (keys : KeyFunctions κ)
    (clock : Nat → Nat) (s : Site κ) (domainHandle : Bool) (allocated : Option Nat)
    (stub : List UInt8) :
    Preserved lower s (createUser2 lower keys clock s domainHandle allocated stub) ↔
      (domainHandle → Unclaimed lower keys s (allocated.getD s.samr.nextRid) (createdName stub)) := by
  cases domainHandle with
  | false =>
    refine ⟨fun _ h => absurd h (by simp), fun _ => ?_⟩
    exact ⟨fun _ _ h => h, fun _ => rfl, fun _ _ h => h, rfl, fun _ e h => ⟨e, h, rfl⟩,
      fun _ _ => rfl,
      rfl⟩
  | true =>
    generalize hname : createdName stub = name
    generalize hrid : allocated.getD s.samr.nextRid = rid
    have hcall : createUser2 lower keys clock s true allocated stub =
        { s with
          samr := (s.samr.createUser allocated name).1
          kdc := (initialKey lower keys s.kdc.realm name).elim s.kdc
            (s.kdc.registerMachineUtf16 lower name)
          store := (storedKey lower keys s.kdc.realm name
            (initialKey lower keys s.kdc.realm name)).elim s.store fun stored =>
              s.store.upsertAdPrincipal name (initialRow lower keys rid name stored)
          ldap := persistComputer lower clock s.kdc.realm name s.ldap } := by
      subst hname hrid
      rfl
    rw [hcall]
    constructor
    · rintro ⟨-, -, hrows, -, hentries, hkdc, -⟩
      refine fun _ => ⟨fun row hrow key hkey => ?_, fun key hkey => ?_,
        entries_preserved_iff.mp hentries⟩
      · simp only [hkey, Option.elim_some] at hrows
        exact rows_preserved_iff.mp hrows row hrow
      · simp only [hkey, Option.elim_some] at hkdc
        exact (kdc_preserved_iff fun _ _ => Site.Claimed.congr).mp hkdc
    · intro h
      obtain ⟨hrow, hkdc, hentry⟩ := h rfl
      refine ⟨fun _ _ h => h, fun _ => rfl, ?_, ?_, entries_preserved_iff.mpr hentry, ?_, ?_⟩
      · cases hkey : storedKey lower keys s.kdc.realm name
          (initialKey lower keys s.kdc.realm name) with
        | none => exact fun _ _ h => h
        | some key => exact rows_preserved_iff.mpr fun row hr => hrow row hr key hkey
      · cases storedKey lower keys s.kdc.realm name (initialKey lower keys s.kdc.realm name) <;> rfl
      · cases hkey : initialKey lower keys s.kdc.realm name with
        | none => exact fun _ _ => rfl
        | some key => exact (kdc_preserved_iff fun _ _ => Site.Claimed.congr).mpr (hkdc key hkey)
      · cases initialKey lower keys s.kdc.realm name <;> rfl

end Preserved

section Sample

/-- Keys and hashes that are the length of the password, and 100 more for a computer. -/
def sampleKeyFunctions : KeyFunctions Nat where
  ntHash password := password.length
  machineKey _ _ password := some (password.length + 100)
  userKey _ _ password := some password.length

/-- A domain with one account, which is disabled. -/
def sampleSite : Site Nat where
  directory := ⟨[], [], [⟨"DC1$", 1000, 2, some 2, true, none⟩], []⟩
  kdc := (PrincipalStore.new "EXAMPLE.COM").registerMachineKey Text.toAsciiLowercase "DC1$" 2
  store := (⟨none, ∅, []⟩ : Store Nat).upsertAdPrincipal "DC1$" ⟨1000, 2, some 2, true⟩
  ldap := ⟨∅, ∅, []⟩
  samr := ⟨firstCreatedRid, []⟩

/-- A request to create an account of a name in ASCII. -/
def createUserStub (name : String) : List UInt8 :=
  List.replicate 24 0 ++ [1, 0, 0, 0] ++ List.replicate 8 0 ++
    [UInt8.ofNat name.length, 0, 0, 0] ++ name.toList.flatMap fun c => [UInt8.ofNat c.toNat, 0]

/-- The site after a request to create an account of a name. -/
def sampleCreated (name : String) : Site Nat :=
  createUser2 Text.toAsciiLowercase sampleKeyFunctions id sampleSite true none (createUserStub name)

/-- Creating an account of a name that is taken gives the account that has it another identifier,
hash and key, and enables it; in the KDC a name that differs in case does. -/
theorem existing_account_replaced :
    sampleSite.store.principals["DC1$"]? = some ⟨1000, 2, some 2, true⟩ ∧
      (sampleCreated "DC1$").store.principals["DC1$"]? = some ⟨1100, 3, some 103, false⟩ ∧
      (sampleSite.kdc.get Text.toAsciiLowercase ["DC1$"]).map (·.key.key) = some 2 ∧
      ((sampleCreated "DC1$").kdc.get Text.toAsciiLowercase ["DC1$"]).map (·.key.key) = some 103 ∧
      ((sampleCreated "dc1$").kdc.get Text.toAsciiLowercase ["DC1$"]).map (·.key.key) = some 103 ∧
      ¬ Preserved Text.toAsciiLowercase sampleSite (sampleCreated "DC1$") := by
  have hrow : (sampleCreated "DC1$").store.principals["DC1$"]? = some ⟨1100, 3, some 103, false⟩ := by
    decide +kernel
  refine ⟨by decide +kernel, hrow, by decide +kernel, by decide +kernel, by decide +kernel, ?_⟩
  intro h
  have := h.rows "DC1$" ⟨1000, 2, some 2, true⟩ (by decide +kernel)
  rw [hrow] at this
  simp at this

end Sample

end Magnetite.Addc
