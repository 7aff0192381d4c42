import Magnetite.Repl.Objects
import Magnetite.Repl.Principals

/-!
# Deletions and changes of one account

A deletion that arrives removes the account and its stamps and is then forgotten. So the last event
to arrive decides whether the account is there, and not the event with the latest stamp, as soon as
there are both deletions and changes.
-/
namespace Magnetite.Repl

open Magnetite.Addc (AdPrincipal)
open Magnetite.Lib.LastWriter
open Db (PrincipalUpdate)

variable {κ : Type}

/-- A reply that has one object, which is a change of the account or its deletion and has a
stamp. -/
structure AccountEvent (session : Session κ) (sam : String) (rid : Nat) where
  reply : ReplicatedChanges
  object : ReplicatedObject
  stamp : AttrMetadata
  single : reply.objects = [object]
  noGroup : object.isGroup = false
  ofAccount : object.objectRid = some rid
  stamped : object.newestMetadata = some stamp
  /-- A deleted object often lacks its name and its password. -/
  whole : object.isDeleted = false →
    object.samAccountName = some sam ∧ (object.ntHash session).isSome

namespace AccountEvent

variable {session : Session κ} {sam : String} {rid : Nat}

def IsDeletion (e : AccountEvent session sam rid) : Prop := e.object.isDeleted = true

instance (e : AccountEvent session sam rid) : Decidable e.IsDeletion :=
  inferInstanceAs (Decidable (_ = true))

/-- The event is applied at some time. -/
def apply (db : Db κ) (e : Int × AccountEvent session sam rid) : Db κ :=
  db.applyReplicatedChanges session e.1 e.2.reply

theorem groups_nil (e : AccountEvent session sam rid) (now : Int) : e.reply.groups now = [] := by
  simp [ReplicatedChanges.groups, e.single, e.noGroup]

@[simp] theorem account_recordCursor (db : Db κ) (dsa : Dsa) (usn : Int) (sam : String) :
    (db.recordCursor dsa usn).account sam = db.account sam := by
  unfold Db.recordCursor
  split_ifs <;> rfl

/-- A change is merged into the account. -/
theorem account_apply_update (db : Db κ) (now : Int) (e : AccountEvent session sam rid)
    (h : ¬ e.IsDeletion) : ∃ u : PrincipalUpdate κ, u.rid = rid ∧
      (apply db (now, e)).account sam = (db.account sam).merge (db.highestUsn + 1) u := by
  have live : e.object.isDeleted = false := by simpa [IsDeletion] using h
  obtain ⟨hsam, hnt⟩ := e.whole live
  obtain ⟨nt, hnt⟩ := Option.isSome_iff_exists.mp hnt
  refine ⟨⟨rid, nt, e.object.aes256 session, e.object.isDisabled, e.reply.objectStamp now e.object,
    e.reply.secretStamp now e.object⟩, rfl, ?_⟩
  rw [← account_apply]
  simp [apply, Db.applyReplicatedChanges, e.single, e.groups_nil, Db.applyTombstone, live,
    Db.applyPrincipal, ReplicatedChanges.principal, hsam, hnt, e.ofAccount]

/-- A deletion removes every account with the identifier. -/
theorem getElem?_deleteReplicatedPrincipal (db : Db κ) (rid : Nat) (sam : String) :
    (db.deleteReplicatedPrincipal rid).2.principals[sam]? =
      db.principals[sam]?.filter (·.rid != rid) := by
  unfold Db.deleteReplicatedPrincipal
  cases hfound : db.principals.toList.find? (·.2.rid == rid) with
  | some found =>
    dsimp only
    rw [Std.ExtTreeMap.getElem?_filter]
    cases db.principals[sam]? <;> simp [Option.pfilter, Option.filter]
  | none =>
    dsimp only
    cases hrow : db.principals[sam]? with
    | none => rfl
    | some p =>
      have := List.find?_eq_none.mp hfound (sam, p)
        (Std.ExtTreeMap.mem_toList_iff_getElem?_eq_some.mpr hrow)
      simpa [Option.filter] using this

/-- Where the account is not held, a deletion leaves nothing of it. -/
theorem account_deleteReplicatedPrincipal {db : Db κ} {rid : Nat} {sam : String}
    (h : db.account sam = ⟨none, none, none⟩) :
    (db.deleteReplicatedPrincipal rid).2.account sam = ⟨none, none, none⟩ := by
  obtain ⟨row, object, secret⟩ := (Account.ext_iff.mp h : _ ∧ _ ∧ _)
  have row' := getElem?_deleteReplicatedPrincipal db rid sam
  rw [show db.principals[sam]? = none from row] at row'
  refine Account.ext row' ?_ ?_
  all_goals
    unfold Db.deleteReplicatedPrincipal
    cases db.principals.toList.find? (·.2.rid == rid) with
    | none => assumption
    | some found =>
      simp only [Db.account, Db.replStamp, Std.ExtTreeMap.getElem?_erase] at object secret ⊢
      split_ifs <;> first | rfl | assumption

theorem account_deleteReplicatedGroup (db : Db κ) (sidHex sam : String) :
    (db.deleteReplicatedGroup sidHex).2.principals = db.principals ∧
      (db.account sam = ⟨none, none, none⟩ →
        (db.deleteReplicatedGroup sidHex).2.account sam = ⟨none, none, none⟩) := by
  unfold Db.deleteReplicatedGroup
  cases db.groups[sidHex]? with
  | none => exact ⟨rfl, id⟩
  | some group =>
    refine ⟨rfl, fun h => ?_⟩
    obtain ⟨row, object, secret⟩ := (Account.ext_iff.mp h : _ ∧ _ ∧ _)
    simp only [Db.account, Db.replStamp] at row object secret
    simp only [Db.account, Db.replStamp, Std.ExtTreeMap.getElem?_erase, row, object, secret,
      ite_self]

/-- A deletion goes by the identifier alone. -/
theorem apply_deletion (db : Db κ) (now : Int) (e : AccountEvent session sam rid)
    (h : e.IsDeletion) :
    ((apply db (now, e)).account sam).row = (db.account sam).row.filter (·.rid != rid) ∧
      (db.account sam = ⟨none, none, none⟩ →
        (apply db (now, e)).account sam = ⟨none, none, none⟩) := by
  have applied : ∃ db' : Db κ, (apply db (now, e)).account sam = db'.account sam ∧
      (db' = (db.deleteReplicatedPrincipal rid).2 ∨
        ∃ sidHex, db' = ((db.deleteReplicatedPrincipal rid).2.deleteReplicatedGroup sidHex).2) := by
    have deleted : e.object.isDeleted = true := h
    refine ⟨Db.applyTombstone db e.object, ?_, ?_⟩
    · simp [apply, Db.applyReplicatedChanges, e.single, e.groups_nil, Db.applyPrincipal, deleted]
    · simp only [Db.applyTombstone, deleted, if_true, e.ofAccount, Option.elim_some]
      cases e.object.objectSid with
      | none => exact .inl rfl
      | some sid => exact .inr ⟨_, rfl⟩
  obtain ⟨db', hdb', rfl | ⟨sidHex, rfl⟩⟩ := applied
  · rw [hdb']
    exact ⟨getElem?_deleteReplicatedPrincipal db rid sam, account_deleteReplicatedPrincipal⟩
  · rw [hdb']
    obtain ⟨rows, absent⟩ :=
      account_deleteReplicatedGroup (db.deleteReplicatedPrincipal rid).2 sidHex sam
    refine ⟨?_, fun h => absent (account_deleteReplicatedPrincipal h)⟩
    rw [Db.account, rows]
    exact getElem?_deleteReplicatedPrincipal db rid sam

/-! ### Runs of events -/

def applyAll (db : Db κ) (events : List (Int × AccountEvent session sam rid)) : Db κ :=
  events.foldl apply db

/-- Changes keep the account, and make it where it is whole. -/
theorem updates_keep {db : Db κ} {events : List (Int × AccountEvent session sam rid)}
    (h : ∀ e ∈ events, ¬ e.2.IsDeletion) (whole : (db.account sam).Whole) :
    ((db.account sam).row.isSome ∨ events ≠ [] → ((applyAll db events).account sam).row.isSome) ∧
      ((∀ p ∈ (db.account sam).row, p.rid = rid) →
        ∀ p ∈ ((applyAll db events).account sam).row, p.rid = rid) := by
  induction events generalizing db with
  | nil => exact ⟨fun h => h.resolve_right (by simp), id⟩
  | cons e events ih =>
    obtain ⟨u, hrid, hu⟩ := account_apply_update db e.1 e.2 (h e (by simp))
    have whole' : ((apply db e).account sam).Whole := hu ▸ whole.merge _ u
    have some' : ((apply db e).account sam).row.isSome := hu ▸ (whole.complete_merge _ u).1
    obtain ⟨kept, rids⟩ := ih (fun e he => h e (List.mem_cons_of_mem _ he)) whole'
    refine ⟨fun _ => kept (.inl some'), fun hrow => rids fun p hp => ?_⟩
    rw [show (apply db e).account sam = _ from hu] at hp
    rcases Account.rid_merge hp with hp | ⟨q, hq, hp⟩
    · exact hp.trans hrid
    · exact hp.trans (hrow q hq)

/-- Deletions leave the account absent. -/
theorem deletions_absent {db : Db κ} {events : List (Int × AccountEvent session sam rid)}
    (h : ∀ e ∈ events, e.2.IsDeletion) :
    (db.account sam = ⟨none, none, none⟩ → (applyAll db events).account sam = ⟨none, none, none⟩) ∧
      ((∀ p ∈ (db.account sam).row, p.rid = rid) → (db.account sam).row = none ∨ events ≠ [] →
        ((applyAll db events).account sam).row = none) := by
  induction events generalizing db with
  | nil => exact ⟨id, fun _ h => h.resolve_right (by simp)⟩
  | cons e events ih =>
    obtain ⟨row, absent⟩ := apply_deletion db e.1 e.2 (h e (by simp))
    obtain ⟨absent', none'⟩ := @ih (apply db e) fun e he => h e (List.mem_cons_of_mem _ he)
    refine ⟨fun hdb => absent' (absent hdb), fun hrid _ => ?_⟩
    have hrow : ((apply db e).account sam).row = none := by
      rw [show (apply db e) = apply db (e.1, e.2) from rfl, row, Option.filter_eq_none_iff]
      intro p hp
      simp [hrid p hp]
    exact none' (by simp [hrow]) (.inl hrow)

/-! ### The latest event -/

/-- However the events arrive, the account is there at the end exactly if an event that no other
wins over is a change. -/
def Converge (db : Db κ) (events : List (AccountEvent session sam rid)) : Prop :=
  ∀ arrived : List (Int × AccountEvent session sam rid),
    (∀ e, e ∈ arrived.map Prod.snd ↔ e ∈ events) →
      (((applyAll db arrived).account sam).row.isSome ↔
        ∃ e ∈ events, ¬ e.IsDeletion ∧ ∀ e' ∈ events, ¬ e'.stamp.winsOver e.stamp)

/-- The events in the order in which they are listed. -/
def timed (events : List (AccountEvent session sam rid)) :
    List (Int × AccountEvent session sam rid) :=
  events.map fun e => (0, e)

theorem exists_latest {events : List (AccountEvent session sam rid)} (h : events ≠ []) :
    ∃ e ∈ events, ∀ e' ∈ events, ¬ e'.stamp.winsOver e.stamp := by
  obtain ⟨e, he⟩ := List.exists_mem_of_ne_nil events h
  have isLatest := isLatest_foldl (fun e : AccountEvent session sam rid => e.stamp.key) none events
  obtain ⟨top, htop, -⟩ := isLatest.top e (.inr he)
  refine ⟨top, (isLatest.mem top htop).resolve_left (by simp), fun e' he' => ?_⟩
  obtain ⟨top', htop', hle⟩ := isLatest.top e' (.inr he')
  obtain rfl := Option.mem_unique htop htop'
  simpa [AttrMetadata.winsOver] using hle

/-- Events on an account that the store does not hold converge exactly if they are all deletions or
all changes. -/
theorem converge_iff {db : Db κ} (fresh : db.account sam = ⟨none, none, none⟩)
    (events : List (AccountEvent session sam rid)) :
    Converge db events ↔ (∀ e ∈ events, e.IsDeletion) ∨ ∀ e ∈ events, ¬ e.IsDeletion := by
  have whole : (db.account sam).Whole := by simp [Account.Whole, fresh]
  constructor
  · intro h
    by_contra hmixed
    push Not at hmixed
    obtain ⟨⟨u, hu, hchange⟩, d, hd, hdeletion⟩ := hmixed
    let changes := events.filter fun e => ¬ e.IsDeletion
    let deletions := events.filter fun e => e.IsDeletion
    have hchanges : ∀ e ∈ timed changes, ¬ e.2.IsDeletion := by
      simp only [timed, List.forall_mem_map]
      exact fun e he => by simpa using (List.mem_filter.mp he).2
    have hdeletions : ∀ e ∈ timed deletions, e.2.IsDeletion := by
      simp only [timed, List.forall_mem_map]
      exact fun e he => by simpa using (List.mem_filter.mp he).2
    -- the changes after the deletions, and before them
    have first := h (timed deletions ++ timed changes) (by
      intro e
      by_cases he : e.IsDeletion <;> simp [timed, changes, deletions, he])
    have last := h (timed changes ++ timed deletions) (by
      intro e
      by_cases he : e.IsDeletion <;> simp [timed, changes, deletions, he])
    have present : ((applyAll db (timed deletions ++ timed changes)).account sam).row.isSome := by
      rw [applyAll, List.foldl_append]
      have absent := (deletions_absent hdeletions).1 fresh
      refine (updates_keep hchanges ?_).1 (.inr ?_)
      · rw [show List.foldl apply db (timed deletions) = applyAll db (timed deletions) from rfl]
        simp [Account.Whole, absent]
      · exact List.ne_nil_of_mem (a := (0, u)) (by simp [timed, changes, hu, hchange])
    have absent : ((applyAll db (timed changes ++ timed deletions)).account sam).row = none := by
      rw [applyAll, List.foldl_append]
      refine (deletions_absent hdeletions).2 ?_ (.inr ?_)
      · exact (updates_keep hchanges whole).2 (by simp [fresh])
      · exact List.ne_nil_of_mem (a := (0, d)) (by simp [timed, deletions, hd, hdeletion])
    rw [absent] at last
    exact absurd (last.mpr (first.mp present)) (by simp)
  · rintro (hall | hall) arrived same
    · have hall' : ∀ e ∈ arrived, e.2.IsDeletion := fun e he =>
        hall e.2 ((same e.2).mp (List.mem_map_of_mem he))
      rw [(deletions_absent hall').1 fresh]
      simp only [Option.isSome_none, Bool.false_eq_true, false_iff]
      rintro ⟨e, he, hchange, -⟩
      exact hchange (hall e he)
    · have hall' : ∀ e ∈ arrived, ¬ e.2.IsDeletion := fun e he =>
        hall e.2 ((same e.2).mp (List.mem_map_of_mem he))
      cases hevents : events with
      | nil =>
        obtain rfl : arrived = [] := List.eq_nil_iff_forall_not_mem.mpr fun e he => by
          have := (same e.2).mp (List.mem_map_of_mem he)
          simp [hevents] at this
        simp [applyAll, fresh]
      | cons e₀ rest =>
        rw [← hevents]
        have hne : events ≠ [] := by simp [hevents]
        obtain ⟨e, he, htop⟩ := exists_latest hne
        refine iff_of_true ((updates_keep hall' whole).1 (.inr ?_)) ⟨e, he, hall e he, htop⟩
        rintro rfl
        exact absurd ((same e).mpr he) (by simp)

end AccountEvent

section Sample

/-- Every password is what it is sent as. -/
def sampleSession : Session Nat where
  decryptUnicodePwd value _ := some (leNat value)
  kerberosKeys _ := []

/-- An account of the domain 21-1, with the given further attributes, all with one stamp. -/
def sampleObject (attrs : List (Nat × Bytes)) (version : UInt32) : ReplicatedObject where
  guid := []
  name := "CN=jsmith,CN=Users,DC=example,DC=com"
  attrs :=
    let sid : Bytes := [1, 3, 0, 0, 0, 0, 0, 5, 21, 0, 0, 0, 1, 0, 0, 0, 81, 4, 0, 0]
    (attrs ++ [(Attid.objectSid, sid)]).map fun (attid, value) =>
      ⟨attid, [value], some ⟨version, 13350000000, 2, 40⟩⟩

def sampleReply (object : ReplicatedObject) : ReplicatedChanges where
  sourceInvocationId := 2
  usnTo := 40
  moreData := false
  objects := [object]
  links := []

def sampleUpdate (later : Bool) : AccountEvent sampleSession "a" 1105 where
  object := sampleObject [(Attid.samAccountName, [97, 0]), (Attid.unicodePwd, [7])]
    (if later then 3 else 1)
  reply := sampleReply (sampleObject [(Attid.samAccountName, [97, 0]), (Attid.unicodePwd, [7])]
    (if later then 3 else 1))
  stamp := ⟨if later then 3 else 1, 13350000000, 2, 40⟩
  single := rfl
  noGroup := rfl
  ofAccount := rfl
  stamped := by cases later <;> decide
  whole _ := by cases later <;> decide

/-- A change with the latest stamp. -/
def sampleChange : AccountEvent sampleSession "a" 1105 := sampleUpdate true

/-- The deletion of an earlier account with the same identifier. -/
def sampleDeletion : AccountEvent sampleSession "a" 1105 where
  object := sampleObject [(Attid.isDeleted, [1, 0, 0, 0])] 2
  reply := sampleReply (sampleObject [(Attid.isDeleted, [1, 0, 0, 0])] 2)
  stamp := ⟨2, 13350000000, 2, 40⟩
  single := rfl
  noGroup := by decide
  ofAccount := by decide
  stamped := by decide
  whole := by decide

/-- The change wins over the deletion, but the account is gone when the deletion arrives last. -/
theorem older_deletion_removes :
    sampleChange.stamp.winsOver sampleDeletion.stamp = true ∧
      ¬ AccountEvent.Converge (Db.new 1) [sampleChange, sampleDeletion] := by
  refine ⟨by decide, fun h => ?_⟩
  have := h [(50, sampleChange), (60, sampleDeletion)] (by simp)
  have gone : ((AccountEvent.applyAll (Db.new 1) [(50, sampleChange), (60, sampleDeletion)]).account
      "a").row.isSome = false := by decide +kernel
  rw [gone] at this
  refine absurd (this.mpr ⟨sampleChange, by simp, by decide, ?_⟩) (by simp)
  simp only [List.mem_cons, List.not_mem_nil, or_false]
  rintro e' (rfl | rfl) <;> decide

/-- Two changes converge. -/
theorem converge_iff_sample : (Db.new 1 : Db Nat).account "a" = ⟨none, none, none⟩ ∧
    sampleChange.stamp.winsOver (sampleUpdate false).stamp = true ∧
    AccountEvent.Converge (Db.new 1) [sampleChange, sampleUpdate false] := by
  have fresh : (Db.new 1 : Db Nat).account "a" = ⟨none, none, none⟩ := rfl
  refine ⟨fresh, by decide, (AccountEvent.converge_iff fresh _).mpr (.inr ?_)⟩
  simp only [List.forall_mem_cons]
  exact ⟨by decide, by decide, by simp⟩

end Sample

end Magnetite.Repl
