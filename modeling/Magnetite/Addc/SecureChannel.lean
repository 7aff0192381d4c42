import Mathlib.Logic.Function.Basic
import Magnetite.Addc.Logon
import Magnetite.Lib.System

/-!
# Password changes over the secure channel

Any number of connections to the Netlogon pipe, each with an interface of its own. A client asks for
a challenge, authenticates as an account, and may then set a new machine password, which goes to the
KDC, to the directory and, by a task in the background, to the database. The two AES functions, the
hash and the derivation of the Kerberos key are arbitrary functions.

Each connection keeps a record, which no code reads, of the account that it authenticated as in the
exchange that gave the session key, and each write in the background of the account that its sender
authenticated as.
-/
namespace Magnetite.Addc

open Magnetite.Lib
open Magnetite.Krb5 (PrincipalStore accountKeys lookupKey machineSpnAliases)

section PasswordSet

/-- The first four bytes are an integer, least byte first. -/
def advanceCredential (credential : List UInt8) (delta : Nat) : List UInt8 :=
  let low := (credential.take 4).foldr (fun b n => b.toNat + 256 * n) 0
  let sum := (low + delta) % 2 ^ 32
  [sum, sum / 2 ^ 8, sum / 2 ^ 16, sum / 2 ^ 24].map UInt8.ofNat ++ credential.drop 4

/-- The password stands at the end of the buffer of 512 bytes, before its length. -/
def extractTrustPassword (plain : List UInt8) : Option (List UInt8) :=
  if plain.length < 516 then none
  else
    let length := ((plain.drop 512).take 4).foldr (fun b n => b.toNat + 256 * n) 0
    if length = 0 ∨ 512 < length ∨ length % 2 ≠ 0 then none
    else some ((plain.take 512).drop (512 - length))

variable {κ σ : Type}

/-- The functions that the secure channel rests on. -/
structure Primitives (κ σ : Type) where
  sessionKeyAes : κ → List UInt8 → List UInt8 → σ
  credentialAes : σ → List UInt8 → List UInt8
  decryptAes : σ → List UInt8 → List UInt8
  ntHash : List UInt8 → κ
  /-- The key of a machine account of a realm, by its password. -/
  machineKey : String → String → List UInt8 → Option κ

/-- A `NetrServerPasswordSet2` request: the authenticator and the encrypted password. -/
structure PasswordSet2 where
  credential : List UInt8
  timestamp : Nat
  encrypted : List UInt8

/-- What a rotated password writes: an account with the two keys. -/
structure Rotation (κ : Type) where
  account : String
  ntHash : κ
  kerberosKey : κ

variable (prim : Primitives κ σ)

/-- `NetrServerPasswordSet2` up to the writes it makes: the account is that of the computer name
given with the challenge. A key that cannot be derived is refused once the state has moved on. -/
def passwordSet2 (realm : String) (st : NetlogonState κ σ) (req : PasswordSet2) :
    NetlogonState κ σ × NetlogonStatus × Option (Rotation κ) :=
  match st.sessionKey, st.storedCredential with
  | some sessionKey, some stored =>
    let advanced := advanceCredential stored req.timestamp
    if prim.credentialAes sessionKey advanced ≠ req.credential then (st, .accessDenied, none)
    else match extractTrustPassword (prim.decryptAes sessionKey req.encrypted) with
      | none => (st, .accessDenied, none)
      | some password =>
        let ntHash := prim.ntHash password
        let st' := { st with
          machineNtHash := ntHash, storedCredential := some (advanceCredential advanced 1) }
        match st.computerName with
        | none => (st', .success, none)
        | some computer =>
          let account := computer ++ "$"
          match prim.machineKey realm account password with
          | none => (st', .accessDenied, none)
          | some kerberosKey => (st', .success, some ⟨account, ntHash, kerberosKey⟩)
  | _, _ => (st, .accessDenied, none)

variable {prim}

theorem passwordSet2_rotation {realm : String} {st : NetlogonState κ σ} {req : PasswordSet2}
    {rotation : Rotation κ} (h : (passwordSet2 prim realm st req).2.2 = some rotation) :
    st.sessionKey.isSome ∧ ∃ computer, st.computerName = some computer ∧
      rotation.account = computer ++ "$" := by
  simp only [passwordSet2] at h
  split at h
  · rename_i sessionKey stored hkey hstored
    refine ⟨by simp [hkey], ?_⟩
    split at h
    · simp at h
    · split at h
      · simp at h
      · split at h
        · simp at h
        · rename_i computer hcomputer
          refine ⟨computer, hcomputer, ?_⟩
          split at h
          · simp at h
          · obtain rfl := Option.some.inj h
            rfl
  · simp at h

/-- The session stays as it is when a password is set. -/
theorem sessionKey_passwordSet2 (realm : String) (st : NetlogonState κ σ) (req : PasswordSet2) :
    (passwordSet2 prim realm st req).1.sessionKey = st.sessionKey := by
  simp only [passwordSet2]
  repeat' split
  all_goals rfl

end PasswordSet

section Channels

variable {κ σ : Type}

structure Channel (κ σ : Type) where
  state : NetlogonState κ σ
  /-- The account of the exchange that gave the session key. -/
  account : Option String

/-- The domain as the Netlogon interfaces see it. -/
structure Domain (κ σ : Type) where
  directory : Directory κ
  kdc : PrincipalStore κ
  store : Store κ
  channels : Nat → Channel κ σ
  /-- The writes in the background, with the account that their sender authenticated as. -/
  pending : List (Rotation κ × String)

inductive Call where
  | reqChallenge (i : Nat) (computer : String) (client : List UInt8)
  | authenticate3 (i : Nat) (account : String) (clientCred : List UInt8)
  | passwordSet2 (i : Nat) (req : PasswordSet2)
  /-- A write in the background is made, or fails. -/
  | persist (k : Nat) (stored : Bool)

variable (lower : String → String) (prim : Primitives κ σ)

namespace Domain

def setChannel (s : Domain κ σ) (i : Nat) (c : Channel κ σ) : Domain κ σ :=
  { s with channels := Function.update s.channels i c }

/-- A rotated password reaches the KDC and the directory at once. -/
def publish (s : Domain κ σ) (rotation : Rotation κ) (sender : String) : Domain κ σ :=
  { s with
    kdc := s.kdc.registerMachineUtf16 lower rotation.account rotation.kerberosKey
    directory := s.directory.upsertRuntimeUser
      ⟨rotation.account, 0, rotation.ntHash, some rotation.kerberosKey, false, none⟩
    pending := s.pending ++ [(rotation, sender)] }

/-- The channel after a request to set a password, and what the request writes. -/
def rotate (s : Domain κ σ) (i : Nat)
    (out : NetlogonState κ σ × NetlogonStatus × Option (Rotation κ)) : Domain κ σ :=
  let c := s.channels i
  let s' := s.setChannel i { c with state := out.1 }
  match out.2.2 with
  | none => s'
  | some rotation => s'.publish lower rotation (c.account.getD "")

def step (s : Domain κ σ) : Call → Option (Domain κ σ)
  | .reqChallenge i computer client =>
    let c := s.channels i
    some (s.setChannel i { c with state := Magnetite.Addc.reqChallenge c.state computer client })
  | .authenticate3 i account clientCred =>
    let c := s.channels i
    let (state, status) := Magnetite.Addc.authenticate3 prim.sessionKeyAes prim.credentialAes
      (some s.directory) c.state account clientCred
    some (s.setChannel i ⟨state, if status = .success then some account else c.account⟩)
  | .passwordSet2 i req =>
    some (s.rotate lower i
      (Magnetite.Addc.passwordSet2 prim s.kdc.realm (s.channels i).state req))
  | .persist k stored => (s.pending[k]?).map fun (rotation, _) =>
    { s with
      pending := s.pending.eraseIdx k
      store := if stored then s.store.upsertAdPrincipal rotation.account
        ⟨0, rotation.ntHash, some rotation.kerberosKey, false⟩ else s.store }

/-- The account in whose name a call writes: the one that its sender authenticated as. -/
def sender (s : Domain κ σ) : Call → Option String
  | .passwordSet2 i _ => (s.channels i).account
  | .persist k _ => (s.pending[k]?).map (·.2)
  | _ => none

/-- The other accounts of the database or of the directory. -/
def Other (s : Domain κ σ) (account sam : String) : Prop :=
  ¬ Text.eqIgnoreAsciiCase sam account ∧
    (sam ∈ s.store.principals ∨
      ∃ user ∈ s.directory.users ++ s.directory.runtimeUsers, user.samAccountName = sam)

/-- A password is set only over a channel that was asked for in the name of the computer whose
account it was authenticated for, and only of an account that shares no name in the KDC with another
one: `WS1$` and `WS1$$` are the same host. -/
def Guarded (s : Domain κ σ) : Call → Prop
  | .passwordSet2 i _ => ∀ computer ∈ (s.channels i).state.computerName,
      ∀ account ∈ (s.channels i).account, Text.eqIgnoreAsciiCase (computer ++ "$") account ∧
        ∀ sam, s.Other account sam →
          (accountKeys lower s.kdc.realm sam).Disjoint (accountKeys lower s.kdc.realm account)
  | _ => True

def GuardedStep (s : Domain κ σ) (call : Call) (t : Domain κ σ) : Prop :=
  s.step lower prim call = some t ∧ s.Guarded lower call

/-- No connection is authenticated yet and nothing is to be written. -/
structure Initial (s : Domain κ σ) : Prop where
  channels : ∀ i, (s.channels i).state.sessionKey = none ∧ (s.channels i).account = none
  pending : s.pending = []

/-- Nothing is different but the password of one account: its row, its entry in the directory and
what the KDC finds under its names, of which none is a name of another account. -/
structure ChangesOnly (account : String) (s t : Domain κ σ) : Prop where
  store : ∀ sam, ¬ Text.eqIgnoreAsciiCase sam account →
    t.store.principals[sam]? = s.store.principals[sam]?
  directory : ∀ sam, ¬ Text.eqIgnoreAsciiCase sam account →
    t.directory.findUser sam = s.directory.findUser sam
  kdc : ∀ name, lookupKey lower name ∉ accountKeys lower s.kdc.realm account →
    t.kdc.get lower name = s.kdc.get lower name
  others : ∀ sam, s.Other account sam → ∀ name,
    lookupKey lower name ∈ accountKeys lower s.kdc.realm sam →
    t.kdc.get lower name = s.kdc.get lower name

/-- A call changes the password of the account that its sender authenticated as, if it changes
any. -/
def Bound (s : Domain κ σ) (call : Call) (t : Domain κ σ) : Prop :=
  match s.sender call with
  | some account => ChangesOnly lower account s t
  | none => t.store = s.store ∧ t.directory = s.directory ∧ t.kdc = s.kdc

end Domain

end Channels

section Binding

variable {κ σ : Type} {lower : String → String} {prim : Primitives κ σ} {s t : Domain κ σ}

namespace Domain

/-- A channel with a session key has an account, and a write in the background is of the account
that its sender authenticated as. -/
structure Inv (s : Domain κ σ) : Prop where
  session : ∀ i, (s.channels i).state.sessionKey.isSome → (s.channels i).account.isSome
  pending : ∀ w ∈ s.pending, Text.eqIgnoreAsciiCase w.1.account w.2

theorem Initial.inv (h : s.Initial) : s.Inv :=
  ⟨fun i hi => by simp [(h.channels i).1] at hi, by simp [h.pending]⟩

theorem Inv.setChannel (h : s.Inv) {i : Nat} {c : Channel κ σ}
    (hc : c.state.sessionKey.isSome → c.account.isSome) : (s.setChannel i c).Inv := by
  refine ⟨fun j => ?_, h.pending⟩
  by_cases hj : j = i
  · subst hj
    simpa [Domain.setChannel] using hc
  · simpa [Domain.setChannel, hj] using h.session j

/-- A rotation that a channel allows is of the account of the channel. -/
theorem Inv.rotation (h : s.Inv) {i : Nat} {req : PasswordSet2} {rotation : Rotation κ}
    (guarded : s.Guarded lower (.passwordSet2 i req))
    (hrot : (passwordSet2 prim s.kdc.realm (s.channels i).state req).2.2 = some rotation) :
    ∃ account, (s.channels i).account = some account ∧
      Text.eqIgnoreAsciiCase rotation.account account ∧ ∀ sam, s.Other account sam →
        (accountKeys lower s.kdc.realm sam).Disjoint (accountKeys lower s.kdc.realm account) := by
  obtain ⟨hkey, computer, hcomputer, haccount⟩ := passwordSet2_rotation hrot
  obtain ⟨account, hacc⟩ := Option.isSome_iff_exists.mp (h.session i hkey)
  refine ⟨account, hacc, ?_⟩
  rw [haccount]
  exact guarded computer hcomputer account hacc

theorem authenticate3_account {c : Channel κ σ} {account : String} {clientCred : List UInt8}
    {dir : Directory κ} (h : c.state.sessionKey.isSome → c.account.isSome)
    (hkey : (authenticate3 prim.sessionKeyAes prim.credentialAes (some dir) c.state account
      clientCred).1.sessionKey.isSome) :
    (if (authenticate3 prim.sessionKeyAes prim.credentialAes (some dir) c.state account
      clientCred).2 = .success then some account else c.account).isSome := by
  unfold authenticate3 verifyCredential at *
  cases hu : dir.findUser account with
  | none => simp_all
  | some u =>
    cases hch : c.state.challenges with
    | none => simp_all
    | some ch =>
      simp only [hu, hch] at hkey ⊢
      split_ifs at hkey ⊢ <;> simp_all

theorem Inv.step (h : s.Inv) {call : Call} (hstep : GuardedStep lower prim s call t) : t.Inv := by
  obtain ⟨hstep, guarded⟩ := hstep
  cases call with
  | reqChallenge i computer client =>
    obtain rfl := Option.some.inj hstep
    exact h.setChannel (h.session i)
  | authenticate3 i account clientCred =>
    obtain rfl := Option.some.inj hstep
    exact h.setChannel (authenticate3_account (h.session i))
  | passwordSet2 i req =>
    have hset : (s.setChannel i { s.channels i with
        state := (passwordSet2 prim s.kdc.realm (s.channels i).state req).1 }).Inv := by
      refine h.setChannel ?_
      rw [sessionKey_passwordSet2]
      exact h.session i
    obtain rfl := Option.some.inj hstep
    cases hrot : (passwordSet2 prim s.kdc.realm (s.channels i).state req).2.2 with
    | none =>
      simp only [rotate, hrot]
      exact hset
    | some rotation =>
      obtain ⟨account, hacc, hname, -⟩ := h.rotation guarded hrot
      simp only [rotate, hrot, publish]
      refine ⟨hset.session, fun w hw => ?_⟩
      rcases List.mem_append.mp hw with hw | hw
      · exact h.pending w hw
      · obtain rfl := List.mem_singleton.mp hw
        simpa [hacc] using hname
  | persist k stored =>
    obtain ⟨w, hw, rfl⟩ := Option.map_eq_some_iff.mp hstep
    exact ⟨h.session, fun w hw => h.pending w (List.mem_of_mem_eraseIdx hw)⟩

/-- A user put into the run-time set is not found under another name. -/
theorem findUser_upsertRuntimeUser {dir : Directory κ} {user : User κ} {sam : String}
    (h : ¬ Text.eqIgnoreAsciiCase sam user.samAccountName) :
    (dir.upsertRuntimeUser user).findUser sam = dir.findUser sam := by
  have hkey : ¬ Text.toAsciiLowercase user.samAccountName = Text.toAsciiLowercase sam := by
    intro he
    exact h (by simp [Text.eqIgnoreAsciiCase, he])
  have hfind : (dir.upsertRuntimeUser user).runtimeUsers.find?
      (fun u => Text.eqIgnoreAsciiCase u.samAccountName sam) =
        if Text.toAsciiLowercase user.samAccountName = Text.toAsciiLowercase sam then some user
        else dir.runtimeUsers.find? fun u => Text.eqIgnoreAsciiCase u.samAccountName sam :=
    find?_upsertBy dir.runtimeUsers user (Text.toAsciiLowercase sam)
  rw [if_neg hkey] at hfind
  exact congrArg _ hfind

theorem ChangesOnly.publish (lowerAscii : ∀ s, lower (Text.toAsciiLowercase s) = lower s)
    {rotation : Rotation κ} {account sender : String}
    (hname : Text.eqIgnoreAsciiCase rotation.account account)
    (hdisjoint : ∀ sam, s.Other account sam →
      (accountKeys lower s.kdc.realm sam).Disjoint (accountKeys lower s.kdc.realm account))
    (hmachine : Text.endsWithChar '$' rotation.account) {c : Channel κ σ} {i : Nat} :
    ChangesOnly lower account s ((s.setChannel i c).publish lower rotation sender) := by
  have hother {sam : String} (h : ¬ Text.eqIgnoreAsciiCase sam account) :
      ¬ Text.eqIgnoreAsciiCase sam rotation.account := fun he =>
    h (Text.eqIgnoreAsciiCase_trans he hname)
  have hkdc (name : List String) (h : lookupKey lower name ∉ accountKeys lower s.kdc.realm account) :
      ((s.setChannel i c).publish lower rotation sender).kdc.get lower name =
        s.kdc.get lower name := by
    rw [← Krb5.accountKeys_congr lowerAscii hname, accountKeys, if_pos hmachine] at h
    exact PrincipalStore.get_registerMachineUtf16 lower h
  exact ⟨fun _ _ => rfl, fun sam h => findUser_upsertRuntimeUser (hother h), hkdc,
    fun sam hsam name hmem => hkdc name (hdisjoint sam hsam hmem)⟩

theorem Bound.passwordSet2 (lowerAscii : ∀ s, lower (Text.toAsciiLowercase s) = lower s)
    (h : s.Inv) {i : Nat} {req : PasswordSet2} (guarded : s.Guarded lower (.passwordSet2 i req)) :
    s.Bound lower (.passwordSet2 i req)
      (s.rotate lower i (passwordSet2 prim s.kdc.realm (s.channels i).state req)) := by
  cases hrot : (Addc.passwordSet2 prim s.kdc.realm (s.channels i).state req).2.2 with
  | none =>
    -- nothing is written, whether the connection is authenticated or not
    simp only [Bound, rotate, hrot]
    split
    · exact ⟨fun _ _ => rfl, fun _ _ => rfl, fun _ _ => rfl, fun _ _ _ _ => rfl⟩
    · exact ⟨rfl, rfl, rfl⟩
  | some rotation =>
    obtain ⟨account, hacc, hname, hdisjoint⟩ := h.rotation guarded hrot
    obtain ⟨-, computer, -, haccount⟩ := passwordSet2_rotation hrot
    have hmachine : Text.endsWithChar '$' rotation.account := by
      rw [haccount]
      simp [Text.endsWithChar]
    simp only [Bound, sender, hacc, rotate, hrot]
    exact .publish lowerAscii hname hdisjoint hmachine

theorem Bound.persist (h : s.Inv) {k : Nat} {stored : Bool} {w : Rotation κ × String}
    (hw : s.pending[k]? = some w) :
    s.Bound lower (.persist k stored) { s with
      pending := s.pending.eraseIdx k
      store := if stored then s.store.upsertAdPrincipal w.1.account
        ⟨0, w.1.ntHash, some w.1.kerberosKey, false⟩ else s.store } := by
  simp only [Bound, sender, hw, Option.map_some]
  refine ⟨fun sam hsam => ?_, fun _ _ => rfl, fun _ _ => rfl, fun _ _ _ _ => rfl⟩
  have hne : w.1.account ≠ sam := by
    rintro rfl
    exact hsam (h.pending w (List.mem_of_getElem? hw))
  cases stored with
  | false => rfl
  | true => simp [Store.upsertAdPrincipal, Std.ExtTreeMap.getElem?_insert, hne]

/-- Whatever calls were made over whatever connections, a call changes the password of the account
that its sender authenticated as, if any, as long as every password is set over a channel that was
asked for in the name of the computer whose account it was authenticated for, and that account
shares no name in the KDC with another. -/
theorem password_set_bound (lowerAscii : ∀ s, lower (Text.toAsciiLowercase s) = lower s)
    {u : Domain κ σ} {calls : List Call} {call : Call} (initial : s.Initial)
    (run : Run (GuardedStep lower prim) s calls t) (step : GuardedStep lower prim t call u) :
    t.Bound lower call u := by
  have inv : t.Inv := run.invariant Inv (fun _ _ _ h hstep => h.step hstep) initial.inv
  obtain ⟨hstep, guarded⟩ := step
  cases call with
  | reqChallenge i computer client =>
    obtain rfl := Option.some.inj hstep
    exact ⟨rfl, rfl, rfl⟩
  | authenticate3 i account clientCred =>
    obtain rfl := Option.some.inj hstep
    exact ⟨rfl, rfl, rfl⟩
  | passwordSet2 i req =>
    obtain rfl := Option.some.inj hstep
    exact .passwordSet2 lowerAscii inv guarded
  | persist k stored =>
    obtain ⟨w, hw, rfl⟩ := Option.map_eq_some_iff.mp hstep
    exact .persist inv hw

end Domain

end Binding

section Sample

/-- A key is its own session key, a credential starts with the key, and nothing is encrypted. -/
def samplePrimitives : Primitives Nat Nat where
  sessionKeyAes ntHash _ _ := ntHash
  credentialAes key input := UInt8.ofNat key :: input.drop 1
  decryptAes _ bytes := bytes
  ntHash bytes := bytes.foldr (fun b n => b.toNat + n) 0
  machineKey _ _ bytes := some (bytes.foldr (fun b n => b.toNat + n) 0)

/-- Two computers, of which one is a domain controller. -/
def sampleDomain : Domain Nat Nat where
  directory := ⟨[], [],
    [⟨"WS1$", 1100, 1, some 1, false, none⟩, ⟨"DC1$", 1000, 2, some 2, false, none⟩], []⟩
  kdc := [("WS1$", 1), ("DC1$", 2)].foldl (fun store machine =>
    store.registerMachineKey Text.toAsciiLowercase machine.1 machine.2) (.new "EXAMPLE.COM")
  store := ⟨none, ∅, []⟩
  channels _ := ⟨⟨none, none, 0, none, none⟩, none⟩
  pending := []

theorem sampleDomain_initial : sampleDomain.Initial := ⟨fun _ => ⟨rfl, rfl⟩, rfl⟩

def samplePassword : List UInt8 := List.replicate 510 0 ++ [30, 3, 2, 0, 0, 0]

/-- A client that has the secret of `WS1$` asks for a challenge in the name of a computer and then
authenticates as `WS1$` and sets a password. -/
def sampleCalls (computer : String) : List Call :=
  [.reqChallenge 0 computer [9, 9, 9, 9, 9, 9, 9, 9],
    .authenticate3 0 "WS1$" [1, 9, 9, 9, 9, 9, 9, 9],
    .passwordSet2 0 ⟨[1, 9, 9, 9, 9, 9, 9, 9], 0, samplePassword⟩]

def sampleCallStep : Domain Nat Nat → Call → Option (Domain Nat Nat) :=
  Domain.step Text.toAsciiLowercase samplePrimitives

/-- The password that is changed is that of the domain controller. -/
theorem other_machine_password_set :
    sampleDomain.Initial ∧
      ∃ t, Run (fun s c t => sampleCallStep s c = some t) sampleDomain (sampleCalls "DC1") t ∧
        (t.channels 0).account = some "WS1$" ∧
        (sampleDomain.directory.findUser "DC1$").map (·.ntHash) = some 2 ∧
        (t.directory.findUser "DC1$").map (·.ntHash) = some 33 ∧
        (sampleDomain.kdc.get Text.toAsciiLowercase ["DC1$"]).map (·.key.key) = some 2 ∧
        (t.kdc.get Text.toAsciiLowercase ["DC1$"]).map (·.key.key) = some 33 := by
  refine ⟨sampleDomain_initial, ?_⟩
  have hrun : ∃ t, (sampleCalls "DC1").foldlM sampleCallStep sampleDomain = some t ∧
      (t.channels 0).account = some "WS1$" ∧
      (t.directory.findUser "DC1$").map (·.ntHash) = some 33 ∧
      (t.kdc.get Text.toAsciiLowercase ["DC1$"]).map (·.key.key) = some 33 :=
    ⟨_, rfl, by decide +kernel, by decide +kernel, by decide +kernel⟩
  obtain ⟨t, ht, haccount, hdir, hkdc⟩ := hrun
  exact ⟨t, Run.of_foldlM ht, haccount, by decide +kernel, hdir, by decide +kernel, hkdc⟩

/-- The same client in its own name. -/
theorem password_set_bound_own :
    ∃ t u, Run (Domain.GuardedStep Text.toAsciiLowercase samplePrimitives) sampleDomain
        ((sampleCalls "WS1").take 2) t ∧
      t.sender (.passwordSet2 0 ⟨[1, 9, 9, 9, 9, 9, 9, 9], 0, samplePassword⟩) = some "WS1$" ∧
      (u.directory.findUser "WS1$").map (·.ntHash) = some 33 ∧
      t.Bound Text.toAsciiLowercase
        (.passwordSet2 0 ⟨[1, 9, 9, 9, 9, 9, 9, 9], 0, samplePassword⟩) u := by
  have run : ∃ t u, Run (Domain.GuardedStep Text.toAsciiLowercase samplePrimitives) sampleDomain
        ((sampleCalls "WS1").take 2) t ∧
      (t.channels 0).account = some "WS1$" ∧ (t.channels 0).state.computerName = some "WS1" ∧
      (t.directory = sampleDomain.directory ∧ t.store = sampleDomain.store ∧
        t.kdc.realm = "EXAMPLE.COM") ∧
      sampleCallStep t (.passwordSet2 0 ⟨[1, 9, 9, 9, 9, 9, 9, 9], 0, samplePassword⟩) = some u ∧
      (u.directory.findUser "WS1$").map (·.ntHash) = some 33 :=
    ⟨_, _, .cons ⟨rfl, trivial⟩ (.cons ⟨rfl, trivial⟩ (.nil _)), by decide +kernel,
      by decide +kernel, ⟨rfl, rfl, rfl⟩, rfl, by decide +kernel⟩
  obtain ⟨t, u, hrun, haccount, hcomputer, ⟨hdir, hstore, hrealm⟩, hstep, hhash⟩ := run
  refine ⟨t, u, hrun, haccount, hhash,
    Domain.password_set_bound Text.toAsciiLowercase_idem sampleDomain_initial hrun ⟨hstep, ?_⟩⟩
  intro computer hc account ha
  obtain rfl : "WS1" = computer := Option.some.inj (hcomputer.symm.trans hc)
  obtain rfl : "WS1$" = account := Option.some.inj (haccount.symm.trans ha)
  refine ⟨by decide +kernel, fun sam hsam => ?_⟩
  have hother : ∀ user ∈ sampleDomain.directory.users ++ sampleDomain.directory.runtimeUsers,
      ¬ Text.eqIgnoreAsciiCase user.samAccountName "WS1$" →
      (accountKeys Text.toAsciiLowercase "EXAMPLE.COM" user.samAccountName).Disjoint
        (accountKeys Text.toAsciiLowercase "EXAMPLE.COM" "WS1$") := by
    unfold List.Disjoint
    decide +kernel
  rw [Domain.Other, hdir, hstore] at hsam
  obtain ⟨hne, hrow | ⟨user, huser, rfl⟩⟩ := hsam
  · exact absurd hrow Std.ExtTreeMap.not_mem_empty
  · rw [hrealm]
    exact hother user huser hne

end Sample

end Magnetite.Addc
