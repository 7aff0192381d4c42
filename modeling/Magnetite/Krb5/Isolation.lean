import Magnetite.Krb5.Keys

/-!
# One account at a time

What is registered, re-keyed or removed in the principal store is written under the lookup keys of
the account's names. A lookup key is the text of the components with slashes between them, so what
is found under other names stays as it was as long as their texts differ, which they do if no
component has a slash in it.
-/
namespace Magnetite.Krb5

open Magnetite.Lib

section Edits

variable {κ : Type} (lower : String → String)

/-- The names of an account: a machine account has its aliases too. -/
def accountNames (realm sam : String) : List (List String) :=
  if Text.endsWithChar '$' sam then machineSpnAliases lower realm sam else [[sam]]

theorem accountKeys_eq (realm sam : String) :
    accountKeys lower realm sam = (accountNames lower realm sam).map (lookupKey lower) := by
  unfold accountKeys accountNames
  split_ifs <;> rfl

/-- A change of the principal store. Keys that are derived from a password are given. -/
inductive StoreEdit (κ : Type) where
  | addKeyPrincipal (name : List String) (key : κ)
  | addUserPrincipal (sam : String) (key : κ) (rid primaryGroupRid : Nat) (groupRids : List Nat)
  | setPassword (name : List String) (key : κ)
  | registerMachineUtf16 (sam : String) (key : κ)
  | registerMachineKey (sam : String) (key : κ)
  | registerUserIdentity (sam : String) (key : κ) (rid primaryGroupRid : Nat) (groupRids : List Nat)
  | removeDynamicPrincipal (sam : String)

namespace StoreEdit

def apply (store : PrincipalStore κ) : StoreEdit κ → PrincipalStore κ
  | .addKeyPrincipal name key => store.addKeyPrincipal lower name key
  | .addUserPrincipal sam key rid primary groups =>
    store.addUserPrincipal lower sam key rid primary groups
  | .setPassword name key => store.setPassword lower name key
  | .registerMachineUtf16 sam key => store.registerMachineUtf16 lower sam key
  | .registerMachineKey sam key => store.registerMachineKey lower sam key
  | .registerUserIdentity sam key rid primary groups =>
    store.registerUserIdentity lower sam key rid primary groups
  | .removeDynamicPrincipal sam => store.removeDynamicPrincipal lower sam

/-- The names that an edit is about. -/
def names (realm : String) : StoreEdit κ → List (List String)
  | .addKeyPrincipal name _ | .setPassword name _ => [name]
  | .addUserPrincipal sam .. | .registerUserIdentity sam .. => [[sam]]
  | .registerMachineUtf16 sam _ | .registerMachineKey sam _ => machineSpnAliases lower realm sam
  | .removeDynamicPrincipal sam => accountNames lower realm sam

def keys (realm : String) (edit : StoreEdit κ) : List String :=
  (edit.names lower realm).map (lookupKey lower)

@[simp]
theorem realm_apply (store : PrincipalStore κ) (edit : StoreEdit κ) :
    (edit.apply lower store).realm = store.realm := by
  cases edit <;> rfl

end StoreEdit

namespace PrincipalStore

/-- What is found under a lookup key. -/
def lookupAt (store : PrincipalStore κ) (k : String) : Option (Principal κ) :=
  if k ∈ store.revoked then none else (store.dynamic.lookup k).or (store.principals.lookup k)

theorem get_eq_lookupAt (store : PrincipalStore κ) (name : List String) :
    store.get lower name = store.lookupAt (lookupKey lower name) :=
  rfl

end PrincipalStore

end Edits

section Writes

variable {κ : Type} {lower : String → String} {store : PrincipalStore κ}

theorem lookup_foldl_erase {dynamic : AList fun _ : String => Principal κ} {ks : List String}
    {k : String} (h : k ∉ ks) : (ks.foldl (fun d k => d.erase k) dynamic).lookup k =
      dynamic.lookup k := by
  induction ks generalizing dynamic with
  | nil => rfl
  | cons j ks ih =>
    rw [List.mem_cons, not_or] at h
    rw [List.foldl_cons, ih h.2, AList.lookup_erase_ne h.1]

/-- Every name of a machine account that is registered is found with its key and the default
identity. -/
theorem PrincipalStore.lookup_insertMachine_mem {sam k : String} {key : κ}
    (hk : k ∈ (machineSpnAliases lower store.realm sam).map (lookupKey lower)) :
    ∃ name, (store.insertMachine lower sam key).dynamic.lookup k =
      some (.withDefaultIdentity name ⟨key, machineSalt lower store.realm sam⟩) := by
  unfold PrincipalStore.insertMachine
  generalize machineSpnAliases lower store.realm sam = aliases at hk
  generalize store.dynamic = dynamic
  induction aliases using List.reverseRecOn with
  | nil => simp at hk
  | append_singleton aliases name ih =>
    rw [List.foldl_append, List.foldl_cons, List.foldl_nil]
    by_cases he : k = lookupKey lower name
    · subst he
      exact ⟨name, AList.lookup_insert _⟩
    · rw [AList.lookup_insert_ne he]
      refine ih ?_
      simpa [he] using hk

/-- An edit leaves the other lookup keys alone. -/
theorem StoreEdit.lookupAt_apply {edit : StoreEdit κ} {k : String}
    (h : k ∉ edit.keys lower store.realm) :
    (edit.apply lower store).lookupAt k = store.lookupAt k := by
  cases edit with
  | addKeyPrincipal name key =>
    have hne : k ≠ lookupKey lower name := by simpa [StoreEdit.keys, StoreEdit.names] using h
    simp only [PrincipalStore.lookupAt, StoreEdit.apply, PrincipalStore.addKeyPrincipal,
      AList.lookup_insert_ne hne]
  | addUserPrincipal sam key rid primary groups =>
    have hne : k ≠ lookupKey lower [sam] := by simpa [StoreEdit.keys, StoreEdit.names] using h
    simp only [PrincipalStore.lookupAt, StoreEdit.apply, PrincipalStore.addUserPrincipal,
      AList.lookup_insert_ne hne]
  | setPassword name key =>
    have hne : k ≠ lookupKey lower name := by simpa [StoreEdit.keys, StoreEdit.names] using h
    simp only [PrincipalStore.lookupAt, StoreEdit.apply, PrincipalStore.setPassword,
      AList.lookup_insert_ne hne]
  | registerMachineUtf16 sam key =>
    simp only [PrincipalStore.lookupAt, StoreEdit.apply, PrincipalStore.registerMachineUtf16,
      PrincipalStore.lookup_insertMachine lower h]
    rfl
  | registerMachineKey sam key =>
    have hrevoked : k ∈ (store.registerMachineKey lower sam key).revoked ↔ k ∈ store.revoked := by
      have hk : k ∉ (machineSpnAliases lower store.realm sam).map (lookupKey lower) := h
      simp only [PrincipalStore.registerMachineKey, Finset.mem_sdiff, List.mem_toFinset]
      exact and_iff_left hk
    simp only [PrincipalStore.lookupAt, StoreEdit.apply, hrevoked]
    simp only [PrincipalStore.registerMachineKey, PrincipalStore.lookup_insertMachine lower h]
    rfl
  | registerUserIdentity sam key rid primary groups =>
    have hne : k ≠ lookupKey lower [sam] := by simpa [StoreEdit.keys, StoreEdit.names] using h
    simp [PrincipalStore.lookupAt, StoreEdit.apply, PrincipalStore.registerUserIdentity, hne,
      AList.lookup_insert_ne hne]
  | removeDynamicPrincipal sam =>
    have hk : k ∉ accountKeys lower store.realm sam := by
      rw [accountKeys_eq]
      exact h
    simp [PrincipalStore.lookupAt, StoreEdit.apply, PrincipalStore.removeDynamicPrincipal, hk,
      lookup_foldl_erase hk]

/-- A registration stands in one of the two maps under each of its lookup keys. -/
theorem StoreEdit.mem_apply {edit : StoreEdit κ} {k : String}
    (hk : k ∈ edit.keys lower store.realm) (hreg : ∀ sam, edit ≠ .removeDynamicPrincipal sam) :
    k ∈ (edit.apply lower store).dynamic ∨ k ∈ (edit.apply lower store).principals := by
  cases edit with
  | addKeyPrincipal name key =>
    have hk : k = lookupKey lower name := by simpa [StoreEdit.keys, StoreEdit.names] using hk
    exact .inr ((AList.mem_insert _).mpr (.inl hk))
  | addUserPrincipal sam key rid primary groups =>
    have hk : k = lookupKey lower [sam] := by simpa [StoreEdit.keys, StoreEdit.names] using hk
    exact .inr ((AList.mem_insert _).mpr (.inl hk))
  | setPassword name key =>
    have hk : k = lookupKey lower name := by simpa [StoreEdit.keys, StoreEdit.names] using hk
    exact .inl ((AList.mem_insert _).mpr (.inl hk))
  | registerMachineUtf16 sam key =>
    exact .inl ((PrincipalStore.mem_insertMachine lower).mpr (.inl hk))
  | registerMachineKey sam key => exact .inl ((PrincipalStore.mem_insertMachine lower).mpr (.inl hk))
  | registerUserIdentity sam key rid primary groups =>
    have hk : k = lookupKey lower [sam] := by simpa [StoreEdit.keys, StoreEdit.names] using hk
    exact .inl ((AList.mem_insert _).mpr (.inl hk))
  | removeDynamicPrincipal sam => exact absurd rfl (hreg sam)

theorem PrincipalStore.lookupAt_isSome {k : String} (hlive : k ∉ store.revoked)
    (hmem : k ∈ store.dynamic ∨ k ∈ store.principals) : (store.lookupAt k).isSome := by
  rw [PrincipalStore.lookupAt, if_neg hlive, Option.isSome_or, Bool.or_eq_true]
  exact hmem.imp AList.lookup_isSome.mpr AList.lookup_isSome.mpr

/-- A removed account is not found under its lookup keys. -/
theorem StoreEdit.lookupAt_removed {sam k : String} (hk : k ∈ accountKeys lower store.realm sam) :
    (store.removeDynamicPrincipal lower sam).lookupAt k = none := by
  simp [PrincipalStore.lookupAt, PrincipalStore.removeDynamicPrincipal, hk]

end Writes

section Isolation

variable {κ : Type} [Inhabited κ] {lower : String → String}

/-- An edit leaves what is found under a name alone in every store exactly if the name's lookup key
is none of its own. -/
theorem StoreEdit.get_apply_iff (edit : StoreEdit κ) (realm : String) (name : List String) :
    (∀ store : PrincipalStore κ, store.realm = realm →
        (edit.apply lower store).get lower name = store.get lower name) ↔
      lookupKey lower name ∉ edit.keys lower realm := by
  constructor
  · intro h hk
    by_cases hremove : ∃ sam, edit = .removeDynamicPrincipal sam
    · -- a seeded principal of that name is lost
      obtain ⟨sam, rfl⟩ := hremove
      have hseeded : ((PrincipalStore.new realm).addKeyPrincipal lower name
          (default : κ)).lookupAt (lookupKey lower name) ≠ none := by
        rw [← Option.isSome_iff_ne_none]
        exact PrincipalStore.lookupAt_isSome (Finset.notMem_empty _)
          (.inr ((AList.mem_insert _).mpr (.inl rfl)))
      refine hseeded ((h _ rfl).symm.trans (StoreEdit.lookupAt_removed ?_))
      rw [accountKeys_eq]
      exact hk
    · -- a new store finds nobody
      have hsome : ((edit.apply lower (.new realm)).lookupAt (lookupKey lower name)).isSome :=
        PrincipalStore.lookupAt_isSome (by
          cases edit with
          | removeDynamicPrincipal sam => exact absurd ⟨sam, rfl⟩ hremove
          | registerMachineKey | registerUserIdentity | addKeyPrincipal | addUserPrincipal
          | setPassword | registerMachineUtf16 =>
            simp [StoreEdit.apply, PrincipalStore.new, PrincipalStore.registerMachineKey,
              PrincipalStore.registerUserIdentity, PrincipalStore.addKeyPrincipal,
              PrincipalStore.addUserPrincipal, PrincipalStore.setPassword,
              PrincipalStore.registerMachineUtf16, PrincipalStore.insertMachine])
          (StoreEdit.mem_apply hk fun sam he => hremove ⟨sam, he⟩)
      rw [← PrincipalStore.get_eq_lookupAt, h (.new realm) rfl] at hsome
      exact absurd hsome (by simp [PrincipalStore.get, PrincipalStore.new])
  · rintro h store rfl
    rw [PrincipalStore.get_eq_lookupAt, PrincipalStore.get_eq_lookupAt, StoreEdit.lookupAt_apply h]

/-- A list of components, none of which has a slash in it. -/
def SlashFree (name : List String) : Prop := name ≠ [] ∧ ∀ c ∈ name, '/' ∉ c.toList

/-- Lists without slashes with the same text are the same. -/
theorem SlashFree.intercalate_inj {a b : List String} (ha : SlashFree a) (hb : SlashFree b)
    (h : "/".intercalate a = "/".intercalate b) : a = b := by
  have hsplit : ∀ {name : List String}, SlashFree name →
      ("/".intercalate name).toList.splitOn '/' = name.map String.toList := by
    intro name hname
    rw [String.toList_intercalate]
    refine List.splitOn_intercalate '/' ?_ (by simpa using hname.1)
    simpa using hname.2
  have hmap : a.map String.toList = b.map String.toList := by rw [← hsplit ha, ← hsplit hb, h]
  exact List.map_injective_iff.mpr (fun _ _ => String.toList_injective) hmap

/-- Whatever is registered, re-keyed or removed, what is found under a name stays the same in every
store exactly if no name of the account has the same text up to case. Names that differ in a
component have different texts if no component has a slash in it. -/
theorem store_isolation_iff
    (lowerJoin : ∀ name, lower ("/".intercalate name) = "/".intercalate (name.map lower))
    (lowerSlash : ∀ s : String, '/' ∉ s.toList → '/' ∉ (lower s).toList)
    (edit : StoreEdit κ) (realm : String) (name : List String) :
    ((∀ store : PrincipalStore κ, store.realm = realm →
        (edit.apply lower store).get lower name = store.get lower name) ↔
      ∀ own ∈ edit.names lower realm, lower ("/".intercalate own) ≠ lower ("/".intercalate name)) ∧
    (SlashFree name → (∀ own ∈ edit.names lower realm, SlashFree own ∧
      own.map lower ≠ name.map lower) →
      ∀ own ∈ edit.names lower realm,
        lower ("/".intercalate own) ≠ lower ("/".intercalate name)) := by
  have hlower {n : List String} (hn : SlashFree n) : SlashFree (n.map lower) := by
    refine ⟨by simpa using hn.1, ?_⟩
    simpa using fun c hc => lowerSlash c (hn.2 c hc)
  constructor
  · rw [StoreEdit.get_apply_iff, StoreEdit.keys, List.mem_map, not_exists]
    exact forall_congr' fun own => not_and
  · intro hname hown own hmem he
    obtain ⟨hplain, hne⟩ := hown own hmem
    rw [lowerJoin, lowerJoin] at he
    exact hne ((hlower hplain).intercalate_inj (hlower hname) he)

section Sample

theorem toAsciiLowercase_intercalate (name : List String) :
    Text.toAsciiLowercase ("/".intercalate name) =
      "/".intercalate (name.map Text.toAsciiLowercase) := by
  have happend (s t : String) : Text.toAsciiLowercase (s ++ t) =
      Text.toAsciiLowercase s ++ Text.toAsciiLowercase t := by
    simp [Text.toAsciiLowercase, String.ofList_append]
  induction name with
  | nil => rfl
  | cons c name ih =>
    cases name with
    | nil => simp
    | cons d name =>
      have hslash : Text.toAsciiLowercase "/" = "/" := by decide
      simp only [String.intercalate_cons_cons, happend, ih, hslash, List.map_cons]

theorem slash_toAsciiLowercase {s : String} (h : '/' ∉ s.toList) :
    '/' ∉ (Text.toAsciiLowercase s).toList := by
  simp only [Text.toAsciiLowercase, String.toList_ofList, List.mem_map, not_exists, not_and]
  intro c hc he
  have hbeq := Text.toLower_beq (d := '/') (.inl (by decide)) c
  rw [he, beq_self_eq_true, eq_comm, beq_iff_eq] at hbeq
  exact h (hbeq ▸ hc)

/-- Registering one computer leaves the service of another alone. -/
theorem store_isolation_computers :
    let edit : StoreEdit Nat := .registerMachineKey "WS1$" 3
    ∀ store : PrincipalStore Nat, store.realm = "EXAMPLE.COM" →
      (edit.apply Text.toAsciiLowercase store).get Text.toAsciiLowercase
          ["host", "ws2.example.com"] =
        store.get Text.toAsciiLowercase ["host", "ws2.example.com"] := by
  have h := store_isolation_iff toAsciiLowercase_intercalate (fun _ => slash_toAsciiLowercase)
    (.registerMachineKey "WS1$" (3 : Nat)) "EXAMPLE.COM" ["host", "ws2.example.com"]
  exact h.1.mpr (h.2 (by unfold SlashFree; decide) (by unfold SlashFree; decide +kernel))

/-- A realm with its own key. -/
def realmStore : PrincipalStore Nat :=
  (PrincipalStore.new "EXAMPLE.COM").addKeyPrincipal Text.toAsciiLowercase
    ["krbtgt", "EXAMPLE.COM"] 1

/-- A computer named after the ticket-granting service replaces its key. -/
theorem krbtgt_replaced :
    let edit : StoreEdit Nat := .registerMachineUtf16 "krbtgt/EXAMPLE.COM" 9
    (∀ own ∈ edit.names Text.toAsciiLowercase "EXAMPLE.COM",
      own.map Text.toAsciiLowercase ≠ ["krbtgt", "EXAMPLE.COM"].map Text.toAsciiLowercase) ∧
    (realmStore.krbtgt Text.toAsciiLowercase).map (·.key.key) = some 1 ∧
    ((edit.apply Text.toAsciiLowercase realmStore).krbtgt Text.toAsciiLowercase).map (·.key.key) =
      some 9 := by
  decide +kernel

end Sample

end Isolation

end Magnetite.Krb5
