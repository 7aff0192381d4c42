import Magnetite.Addc.Directory

/-!
# What the live directory shows after a refresh

A controller starts with the users and groups that it loads, which stay as they are while it runs:
a refresh and the accounts published by SAMR and Netlogon reach the run-time sets only, and a lookup
asks the loaded ones first. The rows of the database come in no particular order, so a directory
that is built anew is one for each order of its users and groups.
-/
namespace Magnetite.Addc

open Magnetite.Lib
open Magnetite.Krb5 (PrincipalStore)

variable {κ : Type}

/-- Users are told apart by their names, whatever the case of ASCII letters. -/
def User.nameKey (u : User κ) : String := Text.toAsciiLowercase u.samAccountName

namespace Directory

section History

/-- The directory at start. -/
def loaded (users : List (User κ)) (groups : List Group) : Directory κ := ⟨users, groups, [], []⟩

/-- What changes the run-time sets. -/
inductive Change (κ : Type) where
  | publish (user : User κ)
  | refresh (kdc : PrincipalStore κ) (fresh : Directory κ)

variable (lower : String → String)

def change (dir : Directory κ) : Change κ → Directory κ
  | .publish user => dir.upsertRuntimeUser user
  | .refresh kdc fresh => (refreshLiveDirectory lower dir kdc fresh).1

/-- No two run-time users have the same name, and no two run-time groups the same identifier. -/
structure Keyed (dir : Directory κ) : Prop where
  users : (dir.runtimeUsers.map User.nameKey).Nodup
  groups : (dir.runtimeGroups.map (·.rid)).Nodup

/-- The run-time user is kept by a refresh: the database has its name in lower case. -/
def kept (fresh : Directory κ) (u : User κ) : Bool :=
  ((fresh.allUsers.map (·.samAccountName)).map lower).contains (lower u.samAccountName)

variable {lower}

theorem foldl_upsertRuntimeUser (users : List (User κ)) (dir : Directory κ) :
    users.foldl upsertRuntimeUser dir =
      { dir with runtimeUsers := upsertAll User.nameKey dir.runtimeUsers users } := by
  induction users generalizing dir with
  | nil => rfl
  | cons u users ih => rw [List.foldl_cons, ih]; rfl

theorem foldl_upsertRuntimeGroup (groups : List Group) (dir : Directory κ) :
    groups.foldl upsertRuntimeGroup dir =
      { dir with runtimeGroups := upsertAll (·.rid) dir.runtimeGroups groups } := by
  induction groups generalizing dir with
  | nil => rfl
  | cons g groups ih => rw [List.foldl_cons, ih]; rfl

/-- A refresh leaves what was loaded; what is kept of the run-time sets gets the users and groups
of the database put in. -/
theorem refreshLiveDirectory_fst (dir fresh : Directory κ) (kdc : PrincipalStore κ) :
    (refreshLiveDirectory lower dir kdc fresh).1 =
      { dir with
        runtimeUsers := upsertAll User.nameKey (dir.runtimeUsers.filter (kept lower fresh))
          fresh.allUsers
        runtimeGroups := upsertAll (·.rid)
          (dir.runtimeGroups.filter fun g => (fresh.allGroups.map (·.rid)).contains g.rid)
          fresh.allGroups } := by
  simp only [refreshLiveDirectory, foldl_upsertRuntimeUser, foldl_upsertRuntimeGroup]
  rfl

theorem Keyed.filter {dir : Directory κ} (h : dir.Keyed) (p : User κ → Bool) (q : Group → Bool) :
    ((dir.runtimeUsers.filter p).map User.nameKey).Nodup ∧
      ((dir.runtimeGroups.filter q).map (·.rid)).Nodup :=
  ⟨(List.filter_sublist.map _).nodup h.users, (List.filter_sublist.map _).nodup h.groups⟩

theorem Keyed.change {dir : Directory κ} (h : dir.Keyed) (c : Change κ) :
    (dir.change lower c).Keyed := by
  cases c with
  | publish user => exact ⟨nodup_keys_upsertBy h.users user, h.groups⟩
  | refresh kdc fresh =>
    rw [Directory.change, refreshLiveDirectory_fst]
    obtain ⟨husers, hgroups⟩ := h.filter (kept lower fresh)
      fun g => (fresh.allGroups.map (·.rid)).contains g.rid
    exact ⟨nodup_keys_upsertAll husers _, nodup_keys_upsertAll hgroups _⟩

theorem keyed_history (users : List (User κ)) (groups : List Group) (history : List (Change κ)) :
    (history.foldl (Directory.change lower) (loaded users groups)).Keyed := by
  have go (dir : Directory κ) (h : dir.Keyed) :
      (history.foldl (Directory.change lower) dir).Keyed := by
    induction history generalizing dir with
    | nil => exact h
    | cons c history ih => exact ih _ (h.change c)
  exact go _ ⟨List.nodup_nil, List.nodup_nil⟩

end History

section Answers

/-- Two directories answer alike, for every name and every identifier. -/
structure SameAnswers (a b : Directory κ) : Prop where
  findUser : ∀ sam, a.findUser sam = b.findUser sam
  allUsers : a.allUsers = b.allUsers
  allGroups : a.allGroups = b.allGroups
  groupMembers : ∀ rid, a.groupMembers rid = b.groupMembers rid
  resolveRid : ∀ rid, a.resolveRid rid = b.resolveRid rid

/-- The directory answers as one built anew, whose users and groups come in some order. -/
def Reflects (live fresh : Directory κ) : Prop :=
  ∃ users groups, users.Perm fresh.users ∧ groups.Perm fresh.groups ∧
    live.SameAnswers (loaded users groups)

/-- The database holds every user and group that was loaded, as it was loaded, and others beside
them with identifiers of their own; a user that was not loaded is the last one listed with its name
up to ASCII case; and a run-time user whose name in lower case is in the database has the name of a
stored user up to ASCII case. -/
structure Unshadowed (lower : String → String) (live fresh : Directory κ) : Prop where
  users : ∃ added, fresh.users.Perm (live.users ++ added) ∧ (added.map (·.rid)).Nodup ∧
    ∀ a ∈ added, (∀ u ∈ live.users, u.rid ≠ a.rid) ∧
      fresh.users.reverse.find? (fun u => Text.eqIgnoreAsciiCase u.samAccountName a.samAccountName) =
        some a
  groups : ∃ added, fresh.groups.Perm (live.groups ++ added) ∧ (added.map (·.rid)).Nodup ∧
    ∀ a ∈ added, ∀ g ∈ live.groups, g.rid ≠ a.rid
  runtime : ∀ u ∈ live.runtimeUsers,
    lower u.samAccountName ∈ fresh.users.map (fun v => lower v.samAccountName) →
      ∃ v ∈ fresh.users, Text.eqIgnoreAsciiCase v.samAccountName u.samAccountName

@[simp]
theorem allUsers_loaded (users : List (User κ)) (groups : List Group) :
    (loaded users groups).allUsers = users := rfl

@[simp]
theorem allGroups_loaded (users : List (User κ)) (groups : List Group) :
    (loaded users groups).allGroups = groups := rfl

theorem groupMembers_eq (dir : Directory κ) (rid : Nat) :
    dir.groupMembers rid = (dir.allGroups.find? (·.rid == rid)).map (·.members) := by
  rw [groupMembers, allGroups, find?_dedupBy]

/-- The answers by identifier are those of the listings. -/
theorem resolveRid_eq (dir : Directory κ) (rid : Nat) :
    dir.resolveRid rid =
      ((dir.allUsers.find? (·.rid == rid)).map fun u => (u.samAccountName, RidKind.user)).or
      ((dir.allGroups.find? (·.rid == rid)).map fun g => (g.samAccountName, RidKind.group)) := by
  rw [resolveRid, allUsers, allGroups, find?_dedupBy, find?_dedupBy]

theorem findUser_eq (dir : Directory κ) (sam : String) :
    dir.findUser sam =
      (dir.users.find? (·.nameKey == Text.toAsciiLowercase sam)).or
        (dir.runtimeUsers.find? (·.nameKey == Text.toAsciiLowercase sam)) := rfl

/-- A directory answers as one built anew if its listings are those of that one and a user is found
as in its own listing. -/
theorem reflects_iff (live fresh : Directory κ) :
    live.Reflects fresh ↔ live.allUsers.Perm fresh.users ∧ live.allGroups.Perm fresh.groups ∧
      ∀ sam, live.findUser sam = (loaded live.allUsers live.allGroups).findUser sam := by
  constructor
  · rintro ⟨users, groups, husers, hgroups, same⟩
    obtain rfl : live.allUsers = users := same.allUsers
    obtain rfl : live.allGroups = groups := same.allGroups
    exact ⟨husers, hgroups, same.findUser⟩
  · rintro ⟨husers, hgroups, hfind⟩
    refine ⟨_, _, husers, hgroups, hfind, rfl, rfl, fun rid => ?_, fun rid => ?_⟩
    · rw [groupMembers_eq, groupMembers_eq, allGroups_loaded]
    · rw [resolveRid_eq, resolveRid_eq, allUsers_loaded, allGroups_loaded]

end Answers

section Refreshed

variable {lower : String → String} {live fresh : Directory κ} {kdc : PrincipalStore κ}

/-- A list that holds what was loaded and values with identifiers of their own shows through the
loaded one. -/
theorem groups_perm_iff (keyed : live.Keyed) (hfresh : fresh.runtimeGroups = []) :
    (refreshLiveDirectory lower live kdc fresh).1.allGroups.Perm fresh.groups ↔
      ∃ added, fresh.groups.Perm (live.groups ++ added) ∧ (added.map (·.rid)).Nodup ∧
        ∀ a ∈ added, ∀ g ∈ live.groups, g.rid ≠ a.rid := by
  have hall : fresh.allGroups = fresh.groups := by rw [allGroups, hfresh]; rfl
  have hbase := (keyed.filter (fun _ => true)
    fun g => (fresh.groups.map (·.rid)).contains g.rid).2
  rw [refreshLiveDirectory_fst, allGroups, hall]
  rw [dedupBy_perm_iff fun g => mem_of_mem_upsertAll hbase (by simp)]
  constructor
  · rintro ⟨added, hperm, hnodup, hnew⟩
    exact ⟨added, hperm, hnodup, fun a ha => (hnew a ha).2⟩
  · rintro ⟨added, hperm, hnodup, hnew⟩
    refine ⟨added, hperm, hnodup, fun a ha => ⟨?_, hnew a ha⟩⟩
    have hmem : a ∈ fresh.groups := hperm.mem_iff.mpr (List.mem_append_right _ ha)
    rw [mem_upsertAll_iff hbase hmem rfl]
    -- the identifier of an added group is that of no other one
    cases hfound : fresh.groups.reverse.find? (fun g => g.rid == a.rid) with
    | none =>
      have := List.find?_eq_none.mp hfound a (List.mem_reverse.mpr hmem)
      simp at this
    | some g =>
      have hg := hperm.mem_iff.mp (List.mem_reverse.mp (List.mem_of_find?_eq_some hfound))
      have hrid : g.rid = a.rid := by simpa using List.find?_some hfound
      have hg := (List.mem_append.mp hg).resolve_left fun h => hnew a ha g h hrid
      rw [List.inj_on_of_nodup_map hnodup hg ha hrid]

/-- A user is found as in the listing, unless a run-time user is left whose name no stored user
has. -/
theorem runtime_of_reflects (hfresh : fresh.runtimeUsers = [])
    (h : (refreshLiveDirectory lower live kdc fresh).1.Reflects fresh) :
    ∀ u ∈ live.runtimeUsers,
      lower u.samAccountName ∈ fresh.users.map (fun v => lower v.samAccountName) →
        ∃ v ∈ fresh.users, Text.eqIgnoreAsciiCase v.samAccountName u.samAccountName := by
  intro u hu hlower
  have hall : fresh.allUsers = fresh.users := by rw [allUsers, hfresh]; rfl
  by_contra hnone
  push Not at hnone
  obtain ⟨users, groups, husers, -, same⟩ := h
  -- no stored user has the name, so a directory built anew does not find it
  have habsent : (loaded users groups).findUser u.samAccountName = none := by
    rw [findUser_eq, loaded, List.find?_nil, Option.or_none, List.find?_eq_none]
    intro v hv
    simpa [User.nameKey, Text.eqIgnoreAsciiCase] using hnone v (husers.mem_iff.mp hv)
  have hkept : kept lower fresh u := by
    simpa [kept, hall] using hlower
  have := same.findUser u.samAccountName
  rw [habsent, refreshLiveDirectory_fst, findUser_eq, Option.or_eq_none_iff, find?_upsertAll,
    Option.or_eq_none_iff] at this
  have := List.find?_eq_none.mp this.2.2 u (List.mem_filter.mpr ⟨hu, hkept⟩)
  simp [User.nameKey] at this

/-- After a refresh the run-time users are users of the database. -/
theorem mem_fresh_of_runtime (keyed : live.Keyed) (hfresh : fresh.runtimeUsers = [])
    (runtime : ∀ u ∈ live.runtimeUsers,
      lower u.samAccountName ∈ fresh.users.map (fun v => lower v.samAccountName) →
        ∃ v ∈ fresh.users, Text.eqIgnoreAsciiCase v.samAccountName u.samAccountName) :
    ∀ u ∈ (refreshLiveDirectory lower live kdc fresh).1.runtimeUsers, u ∈ fresh.users := by
  have hall : fresh.allUsers = fresh.users := by rw [allUsers, hfresh]; rfl
  rw [refreshLiveDirectory_fst, hall]
  intro u
  refine mem_of_mem_upsertAll (keyed.filter (kept lower fresh) fun _ => true).1 fun v hv => ?_
  obtain ⟨hv, hkept⟩ := List.mem_filter.mp hv
  obtain ⟨w, hw, hname⟩ := runtime v hv (by simpa [kept, hall] using hkept)
  exact ⟨w, hw, by simpa [User.nameKey, Text.eqIgnoreAsciiCase] using hname⟩

theorem users_perm_iff (keyed : live.Keyed) (hfresh : fresh.runtimeUsers = [])
    (hsub : ∀ u ∈ (refreshLiveDirectory lower live kdc fresh).1.runtimeUsers, u ∈ fresh.users) :
    (refreshLiveDirectory lower live kdc fresh).1.allUsers.Perm fresh.users ↔
      ∃ added, fresh.users.Perm (live.users ++ added) ∧ (added.map (·.rid)).Nodup ∧
        ∀ a ∈ added, (∀ u ∈ live.users, u.rid ≠ a.rid) ∧
          fresh.users.reverse.find?
            (fun u => Text.eqIgnoreAsciiCase u.samAccountName a.samAccountName) = some a := by
  have hall : fresh.allUsers = fresh.users := by rw [allUsers, hfresh]; rfl
  have hbase := (keyed.filter (kept lower fresh) fun _ => true).1
  rw [allUsers, dedupBy_perm_iff hsub, refreshLiveDirectory_fst, hall]
  refine exists_congr fun added => and_congr_right fun hperm => and_congr_right fun _ =>
    forall₂_congr fun a ha => ?_
  have hmem : a ∈ fresh.users := hperm.mem_iff.mpr (List.mem_append_right _ ha)
  rw [and_comm, mem_upsertAll_iff hbase hmem rfl]
  rfl

/-- A run-time user whose name no loaded user has is in the listing. -/
theorem mem_shown {after : Directory κ} {added shown : List (User κ)}
    (hsub : ∀ u ∈ after.runtimeUsers, u ∈ fresh.users)
    (hperm : fresh.users.Perm (after.users ++ added)) (hnodup : (added.map (·.rid)).Nodup)
    (hrid : ∀ a ∈ added, ∀ u ∈ after.users, u.rid ≠ a.rid)
    (hnew : ∀ a ∈ shown, a ∈ after.runtimeUsers ∧ ∀ x ∈ after.users, x.rid ≠ a.rid)
    (hcover : ∀ y ∈ after.runtimeUsers, ∃ x ∈ after.users ++ shown, x.rid = y.rid)
    {u : User κ} (hu : u ∈ after.runtimeUsers)
    (hname : ∀ v ∈ after.users, v.nameKey ≠ u.nameKey) : u ∈ shown := by
  have hadded {v : User κ} (hv : v ∈ after.runtimeUsers) (h : v ∉ after.users) : v ∈ added :=
    (List.mem_append.mp (hperm.mem_iff.mp (hsub v hv))).resolve_left h
  have hu' : u ∈ added := hadded hu fun h => hname u h rfl
  obtain ⟨x, hx, hkey⟩ := hcover u hu
  have hx : x ∈ shown := (List.mem_append.mp hx).resolve_left fun h => hrid u hu' x h hkey
  have hx' : x ∈ added := hadded (hnew x hx).1 fun h => (hnew x hx).2 x h rfl
  rwa [← List.inj_on_of_nodup_map hnodup hx' hu' hkey]

/-- A user is found at run time as in the listing. -/
theorem findUser_of_unshadowed (keyed : live.Keyed) (hfresh : fresh.runtimeUsers = [])
    (h : live.Unshadowed lower fresh) (sam : String) :
    (refreshLiveDirectory lower live kdc fresh).1.findUser sam =
      (loaded (refreshLiveDirectory lower live kdc fresh).1.allUsers
        (refreshLiveDirectory lower live kdc fresh).1.allGroups).findUser sam := by
  have hsub : ∀ u ∈ (refreshLiveDirectory lower live kdc fresh).1.runtimeUsers, u ∈ fresh.users :=
    mem_fresh_of_runtime keyed hfresh h.runtime
  have hnames : ((refreshLiveDirectory lower live kdc fresh).1.runtimeUsers.map User.nameKey).Nodup :=
    (keyed.change (.refresh kdc fresh)).users
  have husers : (refreshLiveDirectory lower live kdc fresh).1.users = live.users := by
    rw [refreshLiveDirectory_fst]
  generalize (refreshLiveDirectory lower live kdc fresh).1 = after at hsub hnames husers ⊢
  obtain ⟨added, hperm, hnodup, hadded⟩ := h.users
  rw [← husers] at hperm hadded
  obtain ⟨shown, heq, -, hnew, hcover⟩ :=
    dedupBy_eq_append (fun u : User κ => u.rid) after.users after.runtimeUsers
  rw [findUser_eq, findUser_eq, loaded, allUsers, heq, List.find?_nil, Option.or_none,
    List.find?_append]
  cases hbase : after.users.find? (·.nameKey == Text.toAsciiLowercase sam) with
  | some u => rfl
  | none =>
    rw [Option.none_or, Option.none_or]
    have hother : ∀ v ∈ after.users, v.nameKey ≠ Text.toAsciiLowercase sam := fun v hv => by
      simpa using List.find?_eq_none.mp hbase v hv
    cases hfound : after.runtimeUsers.find? (·.nameKey == Text.toAsciiLowercase sam) with
    | none =>
      exact (List.find?_eq_none.mpr fun v hv => List.find?_eq_none.mp hfound v (hnew v hv).1).symm
    | some u =>
      have hu := List.mem_of_find?_eq_some hfound
      have hname : u.nameKey = Text.toAsciiLowercase sam := by simpa using List.find?_some hfound
      have hshown : u ∈ shown := mem_shown hsub hperm hnodup (fun a ha => (hadded a ha).1) hnew
        hcover hu (hname ▸ hother)
      cases hlisted : shown.find? (·.nameKey == Text.toAsciiLowercase sam) with
      | none =>
        have := List.find?_eq_none.mp hlisted u hshown
        simp [hname] at this
      | some v =>
        have hv := (hnew v (List.mem_of_find?_eq_some hlisted)).1
        have hkey : v.nameKey = u.nameKey := by
          rw [hname]
          simpa using List.find?_some hlisted
        rw [List.inj_on_of_nodup_map hnames hv hu hkey]

theorem reflects_refresh_iff (keyed : live.Keyed) (husers : fresh.runtimeUsers = [])
    (hgroups : fresh.runtimeGroups = []) :
    (refreshLiveDirectory lower live kdc fresh).1.Reflects fresh ↔ live.Unshadowed lower fresh := by
  constructor
  · intro h
    have runtime := runtime_of_reflects husers h
    obtain ⟨hu, hg, -⟩ := (reflects_iff _ _).mp h
    exact ⟨(users_perm_iff keyed husers (mem_fresh_of_runtime keyed husers runtime)).mp hu,
      (groups_perm_iff keyed hgroups).mp hg, runtime⟩
  · intro h
    rw [reflects_iff]
    exact ⟨(users_perm_iff keyed husers (mem_fresh_of_runtime keyed husers h.runtime)).mpr h.users,
      (groups_perm_iff keyed hgroups).mpr h.groups, findUser_of_unshadowed keyed husers h⟩

/-- After a refresh a directory that started with any users and groups, whatever was published and
refreshed since, answers as one built anew exactly if nothing that was loaded has changed. -/
theorem refreshed_reflects_iff (lower : String → String) (users : List (User κ))
    (groups : List Group) (history : List (Change κ)) (kdc : PrincipalStore κ)
    (rows : List (String × AdPrincipal κ)) (stored : List Group)
    (replStamp : String → Option ReplMeta) :
    let live := history.foldl (change lower) (loaded users groups)
    let fresh := buildDirectory rows stored replStamp
    (refreshLiveDirectory lower live kdc fresh).1.Reflects fresh ↔ live.Unshadowed lower fresh :=
  reflects_refresh_iff (keyed_history users groups history) rfl rfl

end Refreshed

section Sample

def sampleStartup : Directory Nat :=
  loaded [⟨"alice", 1000, 1, some 1, false, none⟩, ⟨"carol", 1001, 3, some 3, false, none⟩]
    [⟨"Staff", 1200, [1000, 1001], [], none⟩]

/-- Alice has a new password and is disabled, carol is deleted, and the group has lost its
members. -/
def sampleFresh : Directory Nat :=
  buildDirectory [("alice", ⟨1000, 2, some 2, true⟩)] [⟨"Staff", 1200, [], [], none⟩]

def sampleRefreshed : Directory Nat :=
  (refreshLiveDirectory Text.toAsciiLowercase sampleStartup (.new "EXAMPLE.COM") sampleFresh).1

theorem loaded_accounts_stale :
    (sampleRefreshed.findUser "alice").map (fun u => (u.ntHash, u.disabled)) = some (1, false) ∧
      (sampleFresh.findUser "alice").map (fun u => (u.ntHash, u.disabled)) = some (2, true) ∧
      (sampleRefreshed.findUser "carol").isSome ∧ (sampleFresh.findUser "carol").isNone ∧
      sampleRefreshed.groupMembers 1200 = some [1000, 1001] ∧
      sampleFresh.groupMembers 1200 = some [] ∧ ¬ sampleRefreshed.Reflects sampleFresh := by
  refine ⟨by decide, by decide, by decide, by decide, by decide, by decide, ?_⟩
  rintro ⟨users, groups, husers, -, same⟩
  obtain rfl : users = [⟨"alice", 1000, 2, some 2, true, none⟩] := List.perm_singleton.mp husers
  have hfound : (sampleRefreshed.findUser "carol").isSome := by decide
  rw [same.findUser] at hfound
  exact absurd hfound (by decide : ¬ ([⟨"alice", 1000, 2, some 2, true, none⟩].find?
    fun u : User Nat => Text.eqIgnoreAsciiCase u.samAccountName "carol").isSome)

end Sample

end Directory

end Magnetite.Addc
