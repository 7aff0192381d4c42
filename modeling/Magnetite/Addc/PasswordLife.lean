import Magnetite.Addc.Refresh
import Magnetite.Krb5.Isolation
import Magnetite.Krb5.Kpasswd
import Magnetite.Krb5.Obtain
import Magnetite.Lib.System

/-!
# How long a changed password lasts

A password that is changed over kpasswd is written to the KDC's run-time accounts only. A refresh
registers the accounts of the database over them, and a restart begins with the database alone, so
the new password lasts as long as these bring no other key for the account.
-/
namespace Magnetite.Krb5

open Magnetite.Lib

section KeyAt

variable {κ : Type} {lower : String → String} {store : PrincipalStore κ} {k sam : String} {key : κ}

/-- A principal with the key is found under a lookup key. -/
def PrincipalStore.KeyAt (store : PrincipalStore κ) (k : String) (key : κ) : Prop :=
  ∃ p, store.lookupAt k = some p ∧ p.key.key = key

theorem PrincipalStore.KeyAt.apply (h : store.KeyAt k key) (lower : String → String)
    (edit : StoreEdit κ) (hk : k ∉ edit.keys lower store.realm) :
    (edit.apply lower store).KeyAt k key := by
  obtain ⟨p, hp, he⟩ := h
  exact ⟨p, (StoreEdit.lookupAt_apply hk).trans hp, he⟩

theorem PrincipalStore.keyAt_of_dynamic (hlive : k ∉ store.revoked) {p : Principal κ}
    (hp : store.dynamic.lookup k = some p) : store.KeyAt k p.key.key :=
  ⟨p, by rw [PrincipalStore.lookupAt, if_neg hlive, hp, Option.some_or], rfl⟩

theorem PrincipalStore.keyAt_registerMachineKey
    (hk : k ∈ (machineSpnAliases lower store.realm sam).map (lookupKey lower)) :
    (store.registerMachineKey lower sam key).KeyAt k key := by
  obtain ⟨name, hname⟩ : ∃ name, (store.insertMachine lower sam key).dynamic.lookup k =
      some (.withDefaultIdentity name ⟨key, machineSalt lower store.realm sam⟩) :=
    PrincipalStore.lookup_insertMachine_mem hk
  have hlookup : (store.registerMachineKey lower sam key).dynamic.lookup k =
    some (.withDefaultIdentity name ⟨key, machineSalt lower store.realm sam⟩) := hname
  refine PrincipalStore.keyAt_of_dynamic ?_ hlookup
  simp only [PrincipalStore.registerMachineKey, Finset.mem_sdiff, List.mem_toFinset]
  exact fun h => h.2 hk

theorem PrincipalStore.keyAt_registerUserIdentity (rid primary : Nat) (groups : List Nat) :
    (store.registerUserIdentity lower sam key rid primary groups).KeyAt (lookupKey lower [sam])
      key := by
  have hlive : lookupKey lower [sam] ∉
      (store.registerUserIdentity lower sam key rid primary groups).revoked := by
    simp [PrincipalStore.registerUserIdentity]
  exact PrincipalStore.keyAt_of_dynamic hlive (AList.lookup_insert _)

theorem PrincipalStore.keyAt_setPassword {name : List String}
    (hlive : lookupKey lower name ∉ store.revoked) :
    (store.setPassword lower name key).KeyAt (lookupKey lower name) key := by
  have hlive' : lookupKey lower name ∉ (store.setPassword lower name key).revoked := hlive
  exact PrincipalStore.keyAt_of_dynamic hlive' (AList.lookup_insert _)

end KeyAt

end Magnetite.Krb5

namespace Magnetite.Addc

open Magnetite.Lib
open Magnetite.Krb5

section Refreshed

variable {κ : Type} {lower : String → String} {store : PrincipalStore κ} {k : String} {key : κ}
  {groups : List Group}

/-- A refresh of an account leaves the key alone: the account has other lookup keys, or it is
enabled and has this key or none. -/
def KeepsKey (lower : String → String) (realm k : String) (key : κ) (u : User κ) : Prop :=
  k ∈ accountKeys lower realm u.samAccountName →
    u.disabled = false ∧ (u.kerberosKey = none ∨ u.kerberosKey = some key)

theorem keyAt_seedUser (h : store.KeyAt k key) {u : User κ}
    (hu : KeepsKey lower store.realm k key u) :
    (seedUser lower groups true store u).KeyAt k key := by
  obtain ⟨sam, rid, ntHash, kerberosKey, disabled, replMeta⟩ := u
  by_cases hk : k ∈ accountKeys lower store.realm sam
  · obtain ⟨rfl, rfl | rfl⟩ := hu hk
    · exact h
    · by_cases machine : Text.endsWithChar '$' sam
      · simp only [seedUser, machine, if_true]
        rw [accountKeys, if_pos machine] at hk
        exact PrincipalStore.keyAt_registerMachineKey hk
      · simp only [seedUser, machine]
        rw [accountKeys, if_neg machine, List.mem_singleton] at hk
        subst hk
        exact PrincipalStore.keyAt_registerUserIdentity _ _ _
  · cases disabled with
    | true =>
      exact h.apply lower (.removeDynamicPrincipal sam)
        (by rwa [StoreEdit.keys, StoreEdit.names, ← accountKeys_eq])
    | false =>
      cases kerberosKey with
      | none => exact h
      | some x =>
        by_cases machine : Text.endsWithChar '$' sam
        · simp only [seedUser, machine, if_true]
          rw [accountKeys, if_pos machine] at hk
          exact h.apply lower (.registerMachineKey sam x) hk
        · simp only [seedUser, machine]
          rw [accountKeys, if_neg machine] at hk
          exact h.apply lower
            (.registerUserIdentity sam x rid domainUsersRid (userGroupRids groups rid)) hk

theorem keyAt_seedKdcFromUsers {users : List (User κ)} (h : store.KeyAt k key)
    (husers : ∀ u ∈ users, KeepsKey lower store.realm k key u) :
    (seedKdcFromUsers lower store users groups true).KeyAt k key := by
  induction users generalizing store with
  | nil => exact h
  | cons u users ih =>
    rw [List.forall_mem_cons] at husers
    refine ih (keyAt_seedUser h husers.1) ?_
    rw [realm_seedUser]
    exact husers.2

theorem keyAt_removeAll {names : List String} (h : store.KeyAt k key)
    (hnames : ∀ sam ∈ names, k ∉ accountKeys lower store.realm sam) :
    (names.foldl (fun store sam => store.removeDynamicPrincipal lower sam) store).KeyAt k key := by
  induction names generalizing store with
  | nil => exact h
  | cons sam names ih =>
    rw [List.forall_mem_cons] at hnames
    refine ih (h.apply lower (.removeDynamicPrincipal sam) ?_) hnames.2
    rw [StoreEdit.keys, StoreEdit.names, ← accountKeys_eq]
    exact hnames.1

theorem keyAt_refreshLiveDirectory {dir fresh : Directory κ} (h : store.KeyAt k key)
    (hfresh : ∀ u ∈ fresh.allUsers, KeepsKey lower store.realm k key u)
    (hdropped : ∀ u ∈ dir.runtimeUsers, Directory.kept lower fresh u = false →
      k ∉ accountKeys lower store.realm u.samAccountName) :
    (refreshLiveDirectory lower dir store fresh).2.KeyAt k key := by
  refine keyAt_removeAll (keyAt_seedKdcFromUsers h hfresh) fun sam hsam => ?_
  rw [realm_seedKdcFromUsers]
  obtain ⟨u, hu, rfl⟩ := List.mem_map.mp hsam
  obtain ⟨hu, hlive⟩ := List.mem_filter.mp hu
  exact hdropped u hu (by simpa [Directory.kept] using hlive)

end Refreshed

section Restarted

variable {κ : Type} {lower : String → String} {store : PrincipalStore κ} {k : String} {key : κ}
  {emptyKey : κ} {groups : List Group}

/-- Whatever stands under a lookup key has the key, and it is not revoked. -/
structure Agrees (store : PrincipalStore κ) (k : String) (key : κ) : Prop where
  live : k ∉ store.revoked
  dynamic : ∀ p, store.dynamic.lookup k = some p → p.key.key = key
  static : ∀ p, store.principals.lookup k = some p → p.key.key = key

theorem Agrees.new (realm : String) : Agrees (.new realm : PrincipalStore κ) k key :=
  ⟨Finset.notMem_empty _, by simp [PrincipalStore.new], by simp [PrincipalStore.new]⟩

theorem Agrees.keyAt (h : Agrees store k key) (hmem : k ∈ store.dynamic ∨ k ∈ store.principals) :
    store.KeyAt k key := by
  obtain ⟨p, hp⟩ := Option.isSome_iff_exists.mp (PrincipalStore.lookupAt_isSome h.live hmem)
  refine ⟨p, hp, ?_⟩
  rw [PrincipalStore.lookupAt, if_neg h.live, Option.or_eq_some_iff] at hp
  exact hp.elim (h.dynamic p) fun hp => h.static p hp.2

/-- A principal is put into one of the maps. -/
theorem lookup_insert_key {map : AList fun _ : String => Principal κ} {j : String}
    {q : Principal κ} (hmap : ∀ p, map.lookup k = some p → p.key.key = key)
    (hq : j = k → q.key.key = key) :
    ∀ p, (map.insert j q).lookup k = some p → p.key.key = key := by
  intro p hp
  by_cases he : k = j
  · subst he
    rw [AList.lookup_insert] at hp
    exact Option.some.inj hp ▸ hq rfl
  · rw [AList.lookup_insert_ne he] at hp
    exact hmap p hp

/-- An account that stands in one of the maps. -/
def Listed (store : PrincipalStore κ) (k : String) : Prop := k ∈ store.dynamic ∨ k ∈ store.principals

@[simp]
theorem realm_seedAtStart (store : PrincipalStore κ) (u : User κ) :
    (seedAtStart lower emptyKey groups store u).realm = store.realm := by
  unfold seedAtStart
  dsimp only
  split_ifs <;> rfl

theorem Agrees.seedAtStart (h : Agrees store k key) {u : User κ}
    (hu : k ∈ accountKeys lower store.realm u.samAccountName → u.disabled = false →
      u.kerberosKey.getD emptyKey = key) :
    Agrees (seedAtStart lower emptyKey groups store u) k key := by
  unfold Addc.seedAtStart
  dsimp only
  split_ifs with hdisabled hmachine
  · exact h
  · rw [accountKeys, if_pos hmachine] at hu
    refine ⟨fun hk => h.live (Finset.mem_sdiff.mp hk).1, fun p hp => ?_, h.static⟩
    by_cases hk : k ∈ (machineSpnAliases lower store.realm u.samAccountName).map (lookupKey lower)
    · obtain ⟨name, hname⟩ := PrincipalStore.lookup_insertMachine_mem hk
      rw [Option.some.inj (hp.symm.trans hname)]
      exact hu hk (by simpa using hdisabled)
    · exact h.dynamic p ((PrincipalStore.lookup_insertMachine lower hk).symm.trans hp)
  · rw [accountKeys, if_neg hmachine, List.mem_singleton] at hu
    exact ⟨h.live, h.dynamic, lookup_insert_key h.static fun he =>
      hu he.symm (by simpa using hdisabled)⟩

theorem listed_seedAtStart {u : User κ} (h : Listed store k ∨ u.disabled = false ∧
      k ∈ accountKeys lower store.realm u.samAccountName) :
    Listed (seedAtStart lower emptyKey groups store u) k := by
  unfold seedAtStart
  dsimp only
  split_ifs with hdisabled hmachine
  · exact h.resolve_right fun hu => by simp [hu.1] at hdisabled
  · rw [accountKeys, if_pos hmachine] at h
    have hmem : k ∈ (machineSpnAliases lower store.realm u.samAccountName).map (lookupKey lower) ∨
        k ∈ store.dynamic ∨ k ∈ store.principals := h.symm.imp (·.2) id
    rcases hmem with hk | hk | hk
    · exact .inl ((PrincipalStore.mem_insertMachine lower).mpr (.inl hk))
    · exact .inl ((PrincipalStore.mem_insertMachine lower).mpr (.inr hk))
    · exact .inr hk
  · rw [accountKeys, if_neg hmachine, List.mem_singleton] at h
    rcases h with (hk | hk) | ⟨-, hk⟩
    · exact .inl hk
    · exact .inr ((AList.mem_insert _).mpr (.inr hk))
    · exact .inr ((AList.mem_insert _).mpr (.inl hk))

/-- The accounts are seeded one after the other. -/
theorem Agrees.seedAll {users : List (User κ)} (h : Agrees store k key)
    (hkey : ∀ u ∈ users, k ∈ accountKeys lower store.realm u.samAccountName →
      u.disabled = false → u.kerberosKey.getD emptyKey = key)
    (hlisted : Listed store k ∨ ∃ u ∈ users, u.disabled = false ∧
      k ∈ accountKeys lower store.realm u.samAccountName) :
    Agrees (users.foldl (Addc.seedAtStart lower emptyKey groups) store) k key ∧
      Listed (users.foldl (Addc.seedAtStart lower emptyKey groups) store) k := by
  induction users generalizing store with
  | nil => exact ⟨h, hlisted.resolve_right (by simp)⟩
  | cons u users ih =>
    rw [List.forall_mem_cons] at hkey
    refine ih (h.seedAtStart hkey.1) ?_ ?_
    · rw [realm_seedAtStart]
      exact hkey.2
    · rw [realm_seedAtStart]
      rcases hlisted with hl | ⟨v, hv, hv'⟩
      · exact .inl (listed_seedAtStart (.inl hl))
      · rcases List.mem_cons.mp hv with rfl | hv
        · exact .inl (listed_seedAtStart (.inr hv'))
        · exact .inr ⟨v, hv, hv'⟩

/-- The services are added after the accounts. -/
theorem Agrees.addServices {services : List (List String × κ)} (h : Agrees store k key)
    (hlisted : Listed store k)
    (hkey : ∀ s ∈ services, lookupKey lower s.1 = k → s.2 = key) :
    Agrees (services.foldl (fun store s => store.addKeyPrincipal lower s.1 s.2) store) k key ∧
      Listed (services.foldl (fun store s => store.addKeyPrincipal lower s.1 s.2) store) k := by
  induction services generalizing store with
  | nil => exact ⟨h, hlisted⟩
  | cons s services ih =>
    rw [List.forall_mem_cons] at hkey
    refine ih ⟨h.live, h.dynamic, lookup_insert_key h.static hkey.1⟩ ?_ hkey.2
    exact hlisted.imp id fun hk => (AList.mem_insert _).mpr (.inr hk)

/-- The key of an account at start is that of its row. -/
theorem keyAt_startKdc {realm : String} {services : List (List String × κ)} {dir : Directory κ}
    (hkey : ∀ u ∈ dir.users, k ∈ accountKeys lower realm u.samAccountName → u.disabled = false →
      u.kerberosKey.getD emptyKey = key)
    (hlisted : ∃ u ∈ dir.users, u.disabled = false ∧ k ∈ accountKeys lower realm u.samAccountName)
    (hservices : ∀ s ∈ services, lookupKey lower s.1 = k → s.2 = key) :
    (startKdc lower emptyKey realm services dir).KeyAt k key := by
  have hseeded : Agrees (dir.users.foldl (seedAtStart lower emptyKey dir.allGroups) (.new realm)) k
        key ∧ Listed (dir.users.foldl (seedAtStart lower emptyKey dir.allGroups) (.new realm)) k :=
    (Agrees.new realm).seedAll hkey (.inr hlisted)
  obtain ⟨hagrees, hl⟩ := hseeded.1.addServices hseeded.2 hservices
  exact hagrees.keyAt hl

end Restarted

section Life

variable {κ : Type} [DecidableEq κ]

/-- A controller that runs. -/
structure LiveController (κ : Type) where
  directory : Directory κ
  kdc : PrincipalStore κ

/-- What a controller is set up with. -/
structure Setup (κ : Type) where
  lower : String → String
  der : Decoders κ
  deriveAes256Key : String → String → Option κ
  changepwKey : κ
  /-- What an account without a key is seeded with. -/
  emptyKey : κ
  realm : String
  services : List (List String × κ)

inductive LifeEvent (κ : Type) where
  | kpasswd (now : Nat) (request : List UInt8)
  /-- The database is read into the running controller. -/
  | refresh (fresh : Directory κ)
  /-- The process starts again with what it reads from the database. -/
  | restart (loaded : Directory κ)

variable (setup : Setup κ)

/-- The name and the new key of a request that succeeds. -/
def kpasswdChange (store : PrincipalStore κ) (now : Nat) (request : List UInt8) :
    Option (List String × κ) := do
  let (version, verified, privKey, krbPriv) ←
    authenticatedRequest setup.der setup.changepwKey now request
  let userData ← (openKrbPriv setup.der privKey krbPriv).toOption
  let (newPassword, target) ←
    (extractNewPassword setup.der version userData verified.clientName).toOption
  let key ← setup.deriveAes256Key newPassword (defaultSalt store.realm target)
  return (target, key)

namespace LiveController

def step (s : LiveController κ) : LifeEvent κ → LiveController κ
  | .kpasswd now request =>
    { s with kdc := (handleKpasswd setup.lower setup.der setup.deriveAes256Key setup.changepwKey
        s.kdc now request).1 }
  | .refresh fresh =>
    let (directory, kdc) := refreshLiveDirectory setup.lower s.directory s.kdc fresh
    ⟨directory, kdc⟩
  | .restart loaded =>
    ⟨loaded, startKdc setup.lower setup.emptyKey setup.realm setup.services loaded⟩

/-- An event that brings no other key for a lookup key: no other request changes it; the accounts
that are refreshed keep it and those that are dropped do not have it; and what a restart reads has
it with the same key. -/
def Harmless (k : String) (key : κ) (s : LiveController κ) : LifeEvent κ → Prop
  | .kpasswd now request => ∀ c ∈ kpasswdChange setup s.kdc now request, lookupKey setup.lower c.1 ≠ k
  | .refresh fresh =>
    (∀ u ∈ fresh.allUsers, KeepsKey setup.lower s.kdc.realm k key u) ∧
    ∀ u ∈ s.directory.runtimeUsers, Directory.kept setup.lower fresh u = false →
      k ∉ accountKeys setup.lower s.kdc.realm u.samAccountName
  | .restart loaded =>
    (∀ u ∈ loaded.users, k ∈ accountKeys setup.lower setup.realm u.samAccountName →
      u.disabled = false → u.kerberosKey.getD setup.emptyKey = key) ∧
    (∃ u ∈ loaded.users, u.disabled = false ∧
      k ∈ accountKeys setup.lower setup.realm u.samAccountName) ∧
    ∀ s ∈ setup.services, lookupKey setup.lower s.1 = k → s.2 = key

def HarmlessStep (k : String) (key : κ) (s : LiveController κ) (e : LifeEvent κ)
    (t : LiveController κ) :
    Prop :=
  s.Harmless setup k key e ∧ t = s.step setup e

end LiveController

variable {setup} {k : String} {key : κ}

/-- A request sets the password that it changes, and says so, or it does nothing. -/
theorem handleKpasswd_eq (setup : Setup κ) (store : PrincipalStore κ) (now : Nat)
    (request : List UInt8) :
    let r := handleKpasswd setup.lower setup.der setup.deriveAes256Key setup.changepwKey store now
      request
    (∃ c reply, kpasswdChange setup store now request = some c ∧
        r = (store.setPassword setup.lower c.1 c.2, some reply) ∧ reply.code = kpasswdSuccess) ∨
      (kpasswdChange setup store now request = none ∧ r.1 = store) := by
  dsimp only
  cases hreq : authenticatedRequest setup.der setup.changepwKey now request with
  | none => exact .inr ⟨by simp [kpasswdChange, hreq], by simp [handleKpasswd, hreq]⟩
  | some parts =>
    obtain ⟨version, verified, privKey, krbPriv⟩ := parts
    simp only [kpasswdChange, handleKpasswd, hreq, applyChange, Option.bind_eq_bind,
      Option.bind_some]
    cases hopen : openKrbPriv setup.der privKey krbPriv with
    | error code => exact .inr ⟨rfl, rfl⟩
    | ok userData =>
      cases hnew : extractNewPassword setup.der version userData verified.clientName with
      | error code => exact .inr ⟨by simp [Except.toOption, hnew], by simp [bind, Except.bind, hnew]⟩
      | ok change =>
        obtain ⟨newPassword, target⟩ := change
        cases hkey : setup.deriveAes256Key newPassword (defaultSalt store.realm target) with
        | none =>
          exact .inr ⟨by simp [Except.toOption, hnew, hkey],
            by simp [bind, Except.bind, okOr, hnew, hkey]⟩
        | some key =>
          exact .inl ⟨(target, key), _, by simp [Except.toOption, hnew, hkey],
            by simp [bind, Except.bind, okOr, hnew, hkey, pure, Except.pure]; rfl, rfl⟩

theorem LiveController.keyAt_step {s t : LiveController κ} {e : LifeEvent κ} (h : s.kdc.KeyAt k key)
    (hstep : HarmlessStep setup k key s e t) : t.kdc.KeyAt k key := by
  obtain ⟨harmless, rfl⟩ := hstep
  cases e with
  | kpasswd now request =>
    rcases handleKpasswd_eq setup s.kdc now request with
      ⟨c, reply, hc, hr, -⟩ | ⟨-, hr⟩
    · simp only [LiveController.step, hr]
      refine h.apply setup.lower (.setPassword c.1 c.2) ?_
      simpa [StoreEdit.keys, StoreEdit.names, eq_comm] using harmless c hc
    · simp only [LiveController.step, hr]
      exact h
  | refresh fresh => exact keyAt_refreshLiveDirectory h harmless.1 harmless.2
  | restart loaded => exact keyAt_startKdc harmless.1 harmless.2.1 harmless.2.2

/-- After a successful change of a name that is not revoked, and as long as no event brings another
key for it, the key of the new password obtains a TGT, and no other key does. -/
theorem kpasswd_change_lasts {s t : LiveController κ} {now : Nat} {request : List UInt8}
    {name : List String} (hchange : kpasswdChange setup s.kdc now request = some (name, key))
    (hlive : lookupKey setup.lower name ∉ s.kdc.revoked) {events : List (LifeEvent κ)}
    (run : Run (LiveController.HarmlessStep setup (lookupKey setup.lower name) key)
      (s.step setup (.kpasswd now request)) events t) :
    (∃ reply, (handleKpasswd setup.lower setup.der setup.deriveAes256Key setup.changepwKey s.kdc now
        request).2 = some reply ∧ reply.code = kpasswdSuccess) ∧
    (∀ krbtgt, Serving setup.lower t.kdc krbtgt → Encodable name → ∀ now nonce sessionKey,
      ∃ rep, handleAsReq setup.lower t.kdc now sessionKey (logon name key now nonce) = .ok rep) ∧
    ∀ now sessionKey req rep, handleAsReq setup.lower t.kdc now sessionKey req = .ok rep →
      ∀ cname ∈ req.cname, lookupKey setup.lower cname.nameString = lookupKey setup.lower name →
        ∃ pa ∈ req.padata, ∃ ts,
          pa.padataData = .encryptedData ⟨key, asReqTimestamp, .paEncTs ts⟩ := by
  rcases handleKpasswd_eq setup s.kdc now request with ⟨c, reply, hc, hr, hcode⟩ | ⟨hc, -⟩
  · obtain rfl : c = (name, key) := Option.some.inj (hc.symm.trans hchange)
    have hset : (s.step setup (.kpasswd now request)).kdc.KeyAt (lookupKey setup.lower name) key := by
      simp only [LiveController.step, hr]
      exact PrincipalStore.keyAt_setPassword hlive
    obtain ⟨p, hp, rfl⟩ : t.kdc.KeyAt (lookupKey setup.lower name) key :=
      run.invariant _ (fun _ _ _ h hstep => LiveController.keyAt_step h hstep) hset
    refine ⟨⟨reply, by rw [hr], hcode⟩, fun krbtgt serving hname now nonce sessionKey => ?_, ?_⟩
    · obtain ⟨rep, -, hrep, -⟩ := handleAsReq_logon serving hname hp now nonce sessionKey
      exact ⟨rep, hrep⟩
    · intro now sessionKey req rep hrep cname hcname he
      obtain ⟨cname', q, hcname', hq, hpa⟩ := handleAsReq_key hrep
      obtain rfl := Option.some.inj (hcname.symm.trans hcname')
      rw [PrincipalStore.get_eq_lookupAt, he, hp] at hq
      obtain rfl := Option.some.inj hq
      exact hpa
  · rw [hc] at hchange
    simp at hchange

end Life

section Sample

/-- The controller of a realm whose database holds bob with the key 5, and in which a request of
alice sets the password of bob, whose key is 99. -/
def bobSetup : Setup Nat where
  lower := Text.toAsciiLowercase
  der := sampleDecoders
  deriveAes256Key _ _ := some 99
  changepwKey := 7
  emptyKey := 0
  realm := "EXAMPLE.COM"
  services := [(["krbtgt", "EXAMPLE.COM"], 2)]

def bobDirectory : Directory Nat := .loaded [⟨"bob", 1001, 5, some 5, false, none⟩] []

def bobController : LiveController Nat :=
  ⟨bobDirectory, startKdc Text.toAsciiLowercase 0 "EXAMPLE.COM" bobSetup.services bobDirectory⟩

def bobChanged : LiveController Nat :=
  bobController.step bobSetup (.kpasswd (1000 * nanos) setBobRequest)

/-- Whether a key obtains a TGT for bob. -/
def logsOn (c : LiveController Nat) (key : Nat) : Bool :=
  (handleAsReq Text.toAsciiLowercase c.kdc (2000 * nanos) 10
    (logon ["bob"] key (2000 * nanos) 1)).toOption.isSome

/-- The new password is good until the next refresh or restart, which bring the old one back. -/
theorem old_password_back :
    kpasswdChange bobSetup bobController.kdc (1000 * nanos) setBobRequest = some (["bob"], 99) ∧
      (logsOn bobChanged 99 = true ∧ logsOn bobChanged 5 = false) ∧
      (logsOn (bobChanged.step bobSetup (.refresh bobDirectory)) 99 = false ∧
        logsOn (bobChanged.step bobSetup (.refresh bobDirectory)) 5 = true) ∧
      (logsOn (bobChanged.step bobSetup (.restart bobDirectory)) 99 = false ∧
        logsOn (bobChanged.step bobSetup (.restart bobDirectory)) 5 = true) := by
  decide +kernel

/-- A refresh that finds other accounts only. -/
theorem kpasswd_change_lasts_sample :
    ∃ rep, handleAsReq Text.toAsciiLowercase
      (bobChanged.step bobSetup (.refresh (.loaded [⟨"carol", 1002, 6, some 6, false, none⟩] []))).kdc
      (2000 * nanos) 10 (logon ["bob"] 99 (2000 * nanos) 1) = .ok rep := by
  have hrun : Run (LiveController.HarmlessStep bobSetup (lookupKey Text.toAsciiLowercase ["bob"]) 99)
      bobChanged [.refresh (.loaded [⟨"carol", 1002, 6, some 6, false, none⟩] [])]
      (bobChanged.step bobSetup
        (.refresh (.loaded [⟨"carol", 1002, 6, some 6, false, none⟩] []))) :=
    .cons ⟨⟨by unfold KeepsKey; decide +kernel,
      by simp [bobChanged, LiveController.step, bobController,
      bobDirectory, Directory.loaded]⟩, rfl⟩ (.nil _)
  have hchange : kpasswdChange bobSetup bobController.kdc (1000 * nanos) setBobRequest =
      some (["bob"], 99) := by decide +kernel
  have hlasts := kpasswd_change_lasts hchange (by decide +kernel) hrun
  exact hlasts.2.1 (.withDefaultIdentity ["krbtgt", "EXAMPLE.COM"]
    ⟨2, "EXAMPLE.COMkrbtgtEXAMPLE.COM"⟩)
    ⟨by decide +kernel, by decide, rfl⟩ (by decide) _ _ _

end Sample

end Magnetite.Addc
