import Magnetite.Addc.SecureChannel
import Magnetite.Krb5.Isolation

/-!
# What a password change does to an account's identity

The four ways to change a password write the account anew: SAMR and Netlogon to the KDC, the
directory and the database, the registration of a machine over LDAP to the KDC and the database, and
kpasswd to the KDC. The identifiers and groups that they write are not those of the account, so the
identity survives exactly if it is the one that they write. The database is written in the
background; the write is taken to be made. The derived keys are given.
-/
namespace Magnetite.Addc

open Magnetite.Lib
open Magnetite.Krb5

section Changes

variable {κ : Type}

/-- Where a controller keeps accounts; `created` lists those that SAMR has created since the
start. -/
structure AccountSite (κ : Type) where
  directory : Directory κ
  kdc : PrincipalStore κ
  store : Store κ
  created : List (Nat × String)

/-- A password change that succeeds. -/
inductive PasswordChange (κ : Type) where
  | samr (name : String) (ntHash key : κ)
  | netlogon (computer : String) (ntHash key : κ)
  /-- The KDC may not have been started yet. -/
  | ldapMachine (sam : String) (kdcStarted : Bool) (ntHash key : κ)
  | kpasswd (name : List String) (key : κ)

/-- The identifier of an account that SAMR created, and 0 for another. -/
def createdRid (created : List (Nat × String)) (name : String) : Nat :=
  ((created.find? (·.2 == name)).map (·.1)).getD 0

variable (lower : String → String)

namespace AccountSite

/-- `SamrSetInformationUser2` with a password. -/
def samrSetPassword (s : AccountSite κ) (name : String) (ntHash key : κ) : AccountSite κ :=
  let machine := Text.endsWithChar '$' name
  let rid := createdRid s.created name
  { s with
    kdc := if machine then s.kdc.registerMachineUtf16 lower name key
      else s.kdc.setPassword lower [name] key
    directory := s.directory.upsertRuntimeUser
      ⟨name, rid, ntHash, if machine then some key else none, false, none⟩
    store := s.store.upsertAdPrincipal name ⟨rid, ntHash, some key, false⟩ }

/-- `NetrServerPasswordSet2`. -/
def netlogonSetPassword (s : AccountSite κ) (computer : String) (ntHash key : κ) : AccountSite κ :=
  let account := computer ++ "$"
  { s with
    kdc := s.kdc.registerMachineUtf16 lower account key
    directory := s.directory.upsertRuntimeUser ⟨account, 0, ntHash, some key, false, none⟩
    store := s.store.upsertAdPrincipal account ⟨0, ntHash, some key, false⟩ }

/-- `register_machine` for a computer that is added over LDAP. -/
def registerMachine (s : AccountSite κ) (sam : String) (kdcStarted : Bool) (ntHash key : κ) :
    AccountSite κ :=
  { s with
    kdc := if kdcStarted then s.kdc.setPassword lower [sam] key else s.kdc
    store := s.store.upsertAdPrincipal sam ⟨0, ntHash, some key, false⟩ }

def change (s : AccountSite κ) : PasswordChange κ → AccountSite κ
  | .samr name ntHash key => s.samrSetPassword lower name ntHash key
  | .netlogon computer ntHash key => s.netlogonSetPassword lower computer ntHash key
  | .ldapMachine sam kdcStarted ntHash key => s.registerMachine lower sam kdcStarted ntHash key
  | .kpasswd name key => { s with kdc := s.kdc.setPassword lower name key }

/-- The site after some changes. -/
def changed (s : AccountSite κ) (changes : List (PasswordChange κ)) : AccountSite κ :=
  changes.foldl (change lower) s

end AccountSite

namespace PasswordChange

/-- The lookup keys that a change writes in the KDC. -/
def kdcKeys (realm : String) : PasswordChange κ → List String
  | .samr name .. => accountKeys lower realm name
  | .netlogon computer .. => accountKeys lower realm (computer ++ "$")
  | .ldapMachine sam kdcStarted .. => if kdcStarted then [lookupKey lower [sam]] else []
  | .kpasswd name _ => [lookupKey lower name]

/-- The name and the identifier that a change writes in the database. -/
def row (created : List (Nat × String)) : PasswordChange κ → Option (String × Nat)
  | .samr name .. => some (name, createdRid created name)
  | .netlogon computer .. => some (computer ++ "$", 0)
  | .ldapMachine sam .. => some (sam, 0)
  | .kpasswd .. => none

/-- The name and the identifier that a change publishes in the directory. -/
def published (created : List (Nat × String)) : PasswordChange κ → Option (String × Nat)
  | .samr name .. => some (name, createdRid created name)
  | .netlogon computer .. => some (computer ++ "$", 0)
  | .ldapMachine .. | .kpasswd .. => none

end PasswordChange

/-- The identity that goes into tickets. -/
def identity (p : Principal κ) : Nat × Nat × List Nat := (p.rid, p.primaryGroupRid, p.groupRids)

def defaultIdentity : Nat × Nat × List Nat := (0, domainUsersRid, [domainUsersRid])

/-- An account has the identity that it had: in tickets under all its names, in its row and in the
directory. -/
structure KeepsIdentity (sam : String) (s t : AccountSite κ) : Prop where
  tickets : ∀ name p, lookupKey lower name ∈ accountKeys lower s.kdc.realm sam →
    s.kdc.get lower name = some p → ∃ q, t.kdc.get lower name = some q ∧ identity q = identity p
  row : ∀ row : AdPrincipal κ, s.store.principals[sam]? = some row →
    ∃ row' : AdPrincipal κ, t.store.principals[sam]? = some row' ∧ row'.rid = row.rid
  directory : ∀ u, s.directory.findUser sam = some u →
    ∃ u', t.directory.findUser sam = some u' ∧ u'.rid = u.rid

/-- A change writes no other identity for an account: where it writes the KDC under a name of the
account, the identity is the default one; and the row and the user in the directory, unless loaded
at start, have the identifier that it writes. -/
structure WritesIdentity (sam : String) (s : AccountSite κ) (c : PasswordChange κ) : Prop where
  tickets : ∀ name p, lookupKey lower name ∈ accountKeys lower s.kdc.realm sam →
    lookupKey lower name ∈ c.kdcKeys lower s.kdc.realm → s.kdc.get lower name = some p →
      identity p = defaultIdentity
  row : ∀ (row : AdPrincipal κ) rid, s.store.principals[sam]? = some row →
    c.row s.created = some (sam, rid) → row.rid = rid
  directory : ∀ u name rid, s.directory.findUser sam = some u →
    (s.directory.users.find? fun u => Text.eqIgnoreAsciiCase u.samAccountName sam) = none →
    c.published s.created = some (name, rid) → Text.eqIgnoreAsciiCase name sam → u.rid = rid

end Changes

section Written

variable {κ : Type} {lower : String → String} {s t : AccountSite κ} {sam : String}
  {c : PasswordChange κ}

/-- A principal that is given a new key has the default identity. -/
theorem identity_rekeyed {store : PrincipalStore κ} {edit : StoreEdit κ} {k : String}
    (hedit : (∃ name key, edit = .setPassword name key) ∨
      ∃ name key, edit = .registerMachineUtf16 name key)
    (hk : k ∈ edit.keys lower store.realm) (hlive : k ∉ store.revoked) :
    ∃ q, (edit.apply lower store).lookupAt k = some q ∧ identity q = defaultIdentity := by
  rcases hedit with ⟨name, key, rfl⟩ | ⟨name, key, rfl⟩
  · obtain rfl : k = lookupKey lower name := by simpa [StoreEdit.keys, StoreEdit.names] using hk
    refine ⟨.withDefaultIdentity name ⟨key, defaultSalt store.realm name⟩, ?_, rfl⟩
    simp [PrincipalStore.lookupAt, StoreEdit.apply, PrincipalStore.setPassword, hlive]
  · obtain ⟨own, hown⟩ : ∃ own, (store.insertMachine lower name key).dynamic.lookup k =
        some (.withDefaultIdentity own ⟨key, machineSalt lower store.realm name⟩) :=
      PrincipalStore.lookup_insertMachine_mem hk
    refine ⟨.withDefaultIdentity own ⟨key, machineSalt lower store.realm name⟩, ?_, rfl⟩
    rw [PrincipalStore.lookupAt, StoreEdit.apply, PrincipalStore.registerMachineUtf16, hown,
      Option.some_or]
    exact if_neg hlive

/-- What a change does in the KDC. -/
theorem kdc_change (lower : String → String) (t : AccountSite κ) (c : PasswordChange κ) :
    (∃ edit : StoreEdit κ, (t.change lower c).kdc = edit.apply lower t.kdc ∧
      edit.keys lower t.kdc.realm = c.kdcKeys lower t.kdc.realm ∧
      ((∃ name key, edit = .setPassword name key) ∨
        ∃ name key, edit = .registerMachineUtf16 name key)) ∨
    ((t.change lower c).kdc = t.kdc ∧ c.kdcKeys lower t.kdc.realm = []) := by
  cases c with
  | samr name ntHash key =>
    by_cases machine : Text.endsWithChar '$' name
    · refine .inl ⟨.registerMachineUtf16 name key, ?_, ?_, .inr ⟨name, key, rfl⟩⟩
      · simp [AccountSite.change, AccountSite.samrSetPassword, machine, StoreEdit.apply]
      · rw [PasswordChange.kdcKeys, accountKeys, if_pos machine]
        rfl
    · refine .inl ⟨.setPassword [name] key, ?_, ?_, .inl ⟨[name], key, rfl⟩⟩
      · simp [AccountSite.change, AccountSite.samrSetPassword, machine, StoreEdit.apply]
      · rw [PasswordChange.kdcKeys, accountKeys, if_neg machine]
        rfl
  | netlogon computer ntHash key =>
    refine .inl ⟨.registerMachineUtf16 (computer ++ "$") key, rfl, ?_, .inr ⟨_, key, rfl⟩⟩
    have machine : Text.endsWithChar '$' (computer ++ "$") := by simp [Text.endsWithChar]
    rw [PasswordChange.kdcKeys, accountKeys, if_pos machine]
    rfl
  | ldapMachine sam kdcStarted ntHash key =>
    cases kdcStarted with
    | true => exact .inl ⟨.setPassword [sam] key, rfl, rfl, .inl ⟨[sam], key, rfl⟩⟩
    | false => exact .inr ⟨rfl, rfl⟩
  | kpasswd name key => exact .inl ⟨.setPassword name key, rfl, rfl, .inl ⟨name, key, rfl⟩⟩

/-- A principal that is found under a name stays found; it gets the default identity if the change
writes it. -/
theorem get_change {name : List String} {q : Principal κ} (hq : t.kdc.get lower name = some q) :
    ∃ q', (t.change lower c).kdc.get lower name = some q' ∧ identity q' =
      if lookupKey lower name ∈ c.kdcKeys lower t.kdc.realm then defaultIdentity else identity q := by
  rw [PrincipalStore.get_eq_lookupAt] at hq ⊢
  rcases kdc_change lower t c with ⟨edit, hkdc, hkeys, hedit⟩ | ⟨hkdc, hkeys⟩
  · rw [hkdc, ← hkeys]
    split_ifs with hk
    · refine identity_rekeyed hedit hk fun hrevoked => ?_
      simp [PrincipalStore.lookupAt, hrevoked] at hq
    · exact ⟨q, (StoreEdit.lookupAt_apply hk).trans hq, rfl⟩
  · rw [hkdc, hkeys, if_neg List.not_mem_nil]
    exact ⟨q, hq, rfl⟩

/-- What a change writes in the database. -/
theorem row_change (lower : String → String) (t : AccountSite κ) (c : PasswordChange κ) :
    (∃ name row, c.row t.created = some (name, row.rid) ∧
      (t.change lower c).store = t.store.upsertAdPrincipal name row) ∨
    (c.row t.created = none ∧ (t.change lower c).store = t.store) := by
  cases c with
  | samr name ntHash key => exact .inl ⟨name, _, rfl, rfl⟩
  | netlogon computer ntHash key => exact .inl ⟨_, ⟨0, ntHash, some key, false⟩, rfl, rfl⟩
  | ldapMachine sam kdcStarted ntHash key => exact .inl ⟨_, ⟨0, ntHash, some key, false⟩, rfl, rfl⟩
  | kpasswd name key => exact .inr ⟨rfl, rfl⟩

/-- What a change publishes in the directory. -/
theorem directory_change (lower : String → String) (t : AccountSite κ) (c : PasswordChange κ) :
    (∃ u, c.published t.created = some (u.samAccountName, u.rid) ∧
      (t.change lower c).directory = t.directory.upsertRuntimeUser u) ∨
    (c.published t.created = none ∧ (t.change lower c).directory = t.directory) := by
  cases c with
  | samr name ntHash key => exact .inl ⟨⟨_, _, _, _, _, _⟩, rfl, rfl⟩
  | netlogon computer ntHash key =>
    exact .inl ⟨⟨computer ++ "$", 0, ntHash, some key, false, none⟩, rfl, rfl⟩
  | ldapMachine sam kdcStarted ntHash key => exact .inr ⟨rfl, rfl⟩
  | kpasswd name key => exact .inr ⟨rfl, rfl⟩

theorem findUser_upsertRuntimeUser (dir : Directory κ) (u : User κ) (sam : String) :
    (dir.upsertRuntimeUser u).findUser sam =
      (dir.users.find? fun u => Text.eqIgnoreAsciiCase u.samAccountName sam).or
        (if Text.eqIgnoreAsciiCase u.samAccountName sam then some u
          else dir.runtimeUsers.find? fun u => Text.eqIgnoreAsciiCase u.samAccountName sam) := by
  have hfind : (dir.upsertRuntimeUser u).runtimeUsers.find?
      (fun u => Text.eqIgnoreAsciiCase u.samAccountName sam) =
        if Text.toAsciiLowercase u.samAccountName = Text.toAsciiLowercase sam then some u
        else dir.runtimeUsers.find? fun u => Text.eqIgnoreAsciiCase u.samAccountName sam :=
    find?_upsertBy dir.runtimeUsers u (Text.toAsciiLowercase sam)
  have hsame : Text.toAsciiLowercase u.samAccountName = Text.toAsciiLowercase sam ↔
      Text.eqIgnoreAsciiCase u.samAccountName sam = true := by
    simp [Text.eqIgnoreAsciiCase]
  simp only [hsame] at hfind
  exact congrArg _ hfind

end Written

section Identity

variable {κ : Type} {lower : String → String} {s t : AccountSite κ} {sam : String}
  {c : PasswordChange κ}

/-- What no change of a password touches. -/
structure SameSite (s t : AccountSite κ) : Prop where
  realm : t.kdc.realm = s.kdc.realm
  created : t.created = s.created
  users : t.directory.users = s.directory.users

theorem SameSite.change (h : SameSite s t) (c : PasswordChange κ) :
    SameSite s (t.change lower c) := by
  refine ⟨?_, ?_, ?_⟩
  · rcases kdc_change lower t c with ⟨edit, hkdc, -⟩ | ⟨hkdc, -⟩
    · rw [hkdc, StoreEdit.realm_apply, h.realm]
    · rw [hkdc, h.realm]
  · rw [← h.created]
    cases c <;> rfl
  · rw [← h.users]
    cases c <;> rfl

/-- A change that writes the identity that an account has leaves it alone. -/
theorem KeepsIdentity.change (same : SameSite s t) (h : KeepsIdentity lower sam s t)
    (hc : WritesIdentity lower sam s c) : KeepsIdentity lower sam s (t.change lower c) where
  tickets name p hname hp := by
    obtain ⟨q, hq, hid⟩ := h.tickets name p hname hp
    obtain ⟨q', hq', hid'⟩ := get_change (c := c) hq
    refine ⟨q', hq', ?_⟩
    split_ifs at hid' with hk
    · rw [same.realm] at hk
      rw [hid', hc.tickets name p hname hk hp]
    · rw [hid', hid]
  row row hrow := by
    obtain ⟨row', hrow', hrid⟩ := h.row row hrow
    rcases row_change lower t c with ⟨name, new, hnew, hstore⟩ | ⟨-, hstore⟩
    · rw [hstore]
      by_cases hname : name = sam
      · subst hname
        refine ⟨new, by simp [Store.upsertAdPrincipal], ?_⟩
        exact (hc.row row new.rid hrow (same.created ▸ hnew)).symm
      · exact ⟨row', by simp [Store.upsertAdPrincipal, Std.ExtTreeMap.getElem?_insert, hname, hrow'],
          hrid⟩
    · rw [hstore]
      exact ⟨row', hrow', hrid⟩
  directory u hu := by
    obtain ⟨u', hu', hrid⟩ := h.directory u hu
    rcases directory_change lower t c with ⟨new, hnew, hdir⟩ | ⟨-, hdir⟩
    · rw [hdir, findUser_upsertRuntimeUser]
      cases hstatic : t.directory.users.find? fun u =>
        Text.eqIgnoreAsciiCase u.samAccountName sam with
      | some v =>
        have hv : u' = v := by
          rw [Directory.findUser, hstatic, Option.some_or] at hu'
          exact (Option.some.inj hu').symm
        exact ⟨v, rfl, hv ▸ hrid⟩
      | none =>
        rw [Option.none_or]
        split_ifs with hname
        · refine ⟨new, rfl, ?_⟩
          rw [same.users] at hstatic
          exact (hc.directory u _ new.rid hu hstatic (same.created ▸ hnew) hname).symm
        · rw [Directory.findUser, hstatic, Option.none_or] at hu'
          exact ⟨u', hu', hrid⟩
    · rw [hdir]
      exact ⟨u', hu', hrid⟩

/-- A change that leaves the identity alone writes the identity that the account has. -/
theorem WritesIdentity.of_keeps (same : SameSite s t) (h : KeepsIdentity lower sam s t)
    (h' : KeepsIdentity lower sam s (t.change lower c)) : WritesIdentity lower sam s c where
  tickets name p hname hk hp := by
    obtain ⟨q, hq, -⟩ := h.tickets name p hname hp
    obtain ⟨q', hq', hid'⟩ := get_change (c := c) hq
    obtain ⟨q'', hq'', hid''⟩ := h'.tickets name p hname hp
    obtain rfl := Option.some.inj (hq'.symm.trans hq'')
    rw [← hid'', hid', same.realm, if_pos hk]
  row row rid hrow hnew := by
    obtain ⟨row', hrow', hrid⟩ := h'.row row hrow
    rcases row_change lower t c with ⟨name, new, hnew', hstore⟩ | ⟨hnone, -⟩
    · rw [same.created, hnew, Option.some.injEq, Prod.mk.injEq] at hnew'
      obtain ⟨rfl, rfl⟩ := hnew'
      rw [hstore] at hrow'
      obtain rfl : new = row' := by simpa [Store.upsertAdPrincipal] using hrow'
      exact hrid.symm
    · rw [same.created, hnew] at hnone
      simp at hnone
  directory u name rid hu hstatic hnew hname := by
    obtain ⟨u', hu', hrid⟩ := h'.directory u hu
    rcases directory_change lower t c with ⟨new, hnew', hdir⟩ | ⟨hnone, -⟩
    · rw [same.created, hnew, Option.some.injEq, Prod.mk.injEq] at hnew'
      obtain ⟨rfl, rfl⟩ := hnew'
      rw [hdir, findUser_upsertRuntimeUser, same.users, hstatic, Option.none_or, if_pos hname] at hu'
      rw [← hrid, Option.some.inj hu']
    · rw [same.created, hnew] at hnone
      simp at hnone

theorem KeepsIdentity.refl (s : AccountSite κ) : KeepsIdentity lower sam s s :=
  ⟨fun _ p _ hp => ⟨p, hp, rfl⟩, fun row hrow => ⟨row, hrow, rfl⟩, fun u hu => ⟨u, hu, rfl⟩⟩

/-- An account keeps its identity through a sequence of password changes, at every moment, exactly
if each of them writes the identity that the account had at the start. -/
theorem identity_kept_iff (s : AccountSite κ) (sam : String) (changes : List (PasswordChange κ)) :
    (∀ done, done <+: changes → KeepsIdentity lower sam s (s.changed lower done)) ↔
      ∀ c ∈ changes, WritesIdentity lower sam s c := by
  have hsame (changes : List (PasswordChange κ)) : SameSite s (s.changed lower changes) := by
    induction changes using List.reverseRecOn with
    | nil => exact ⟨rfl, rfl, rfl⟩
    | append_singleton changes c ih =>
      rw [AccountSite.changed, List.foldl_append, List.foldl_cons, List.foldl_nil]
      exact ih.change c
  have hsnoc (done : List (PasswordChange κ)) (c : PasswordChange κ) :
      s.changed lower (done ++ [c]) = (s.changed lower done).change lower c := by
    rw [AccountSite.changed, List.foldl_append, List.foldl_cons, List.foldl_nil]
    rfl
  constructor
  · intro h c hc
    obtain ⟨done, rest, rfl⟩ := List.append_of_mem hc
    refine .of_keeps (hsame done) (h done (List.prefix_append done _)) ?_
    rw [← hsnoc]
    exact h _ ⟨rest, by simp⟩
  · intro h done hdone
    induction done using List.reverseRecOn with
    | nil => exact .refl s
    | append_singleton done c ih =>
      rw [hsnoc]
      refine (ih ((List.prefix_append done [c]).trans hdone)).change (hsame done) (h c ?_)
      exact hdone.subset (by simp)

end Identity

section Sample

/-- A user in two groups and a computer, both with identifiers of their own. -/
def twoAccounts : AccountSite Nat where
  directory := ⟨[], [], [⟨"WS1$", 1105, 4, some 4, false, none⟩], []⟩
  kdc := ((PrincipalStore.new "EXAMPLE.COM").addUserPrincipal Text.toAsciiLowercase "bob" 5 1001 513
    [513, 512]).registerMachineKey Text.toAsciiLowercase "WS1$" 4
  store := ((⟨none, ∅, []⟩ : Store Nat).upsertAdPrincipal "bob"
    ⟨1001, 5, some 5, false⟩).upsertAdPrincipal
    "WS1$" ⟨1105, 4, some 4, false⟩
  created := []

/-- The tickets of a user who changes the password over kpasswd lose the identifier and the group,
and a computer that changes its own is stored and published without an identifier. -/
theorem identity_lost :
    let user := twoAccounts.changed Text.toAsciiLowercase [.kpasswd ["bob"] 9]
    let computer := twoAccounts.changed Text.toAsciiLowercase [.netlogon "WS1" 8 9]
    (twoAccounts.kdc.get Text.toAsciiLowercase ["bob"]).map identity = some (1001, 513, [513, 512]) ∧
      (user.kdc.get Text.toAsciiLowercase ["bob"]).map identity = some (0, 513, [513]) ∧
      (twoAccounts.store.principals["WS1$"]?).map (·.rid) = some 1105 ∧
      (computer.store.principals["WS1$"]?).map (·.rid) = some 0 ∧
      (twoAccounts.directory.findUser "WS1$").map (·.rid) = some 1105 ∧
      (computer.directory.findUser "WS1$").map (·.rid) = some 0 := by
  decide +kernel

end Sample

end Magnetite.Addc
