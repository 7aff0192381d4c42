import Magnetite.Lib.LastWriter
import Magnetite.Repl.Store

/-!
# Accounts converge

A replicated change of an account carries two stamps, one for the object and one for its password,
and is merged by each of them on its own. An account that is held as a whole is a pair of registers
in which the last writer wins, so that the changes leave the same account in whatever order they
arrive. Stamps that are left without their account break this: a change that loses to such a stamp
still brings its values.
-/
namespace Magnetite.Repl

open Magnetite.Addc (AdPrincipal)
open Magnetite.Lib.LastWriter
open Db (PrincipalUpdate)

variable {κ : Type}

/-! ### One account -/

theorem ne_secretKey (sam : String) : sam ≠ Db.secretKey sam := by
  intro h
  have := congrArg String.length h
  simp [Db.secretKey] at this

/-- What the store holds of one account. -/
@[ext] structure Account (κ : Type) where
  row : Option (AdPrincipal κ)
  object : Option ReplStamp
  secret : Option ReplStamp

def Db.account (db : Db κ) (sam : String) : Account κ where
  row := db.principals[sam]?
  object := db.replStamp sam
  secret := db.replStamp (secretKey sam)

namespace Account

def objectWins (a : Account κ) (u : PrincipalUpdate κ) : Bool :=
  a.object.all (u.objectStamp.winsOver ·)

def secretWins (a : Account κ) (u : PrincipalUpdate κ) : Bool :=
  a.secret.all (u.secretStamp.winsOver ·)

/-- A replicated change seen by the account alone. -/
def merge (a : Account κ) (usn : Int) (u : PrincipalUpdate κ) : Account κ :=
  if a.objectWins u || a.secretWins u then
    { row := some
        { rid := if a.objectWins u then u.rid else a.row.elim u.rid (·.rid)
          ntHash := if a.secretWins u then u.ntHash else a.row.elim u.ntHash (·.ntHash)
          kerberosKey :=
            if a.secretWins u then u.kerberosKey else a.row.elim u.kerberosKey (·.kerberosKey)
          disabled := if a.objectWins u then u.disabled else a.row.any (·.disabled) }
      object := if a.objectWins u then some { u.objectStamp with localUsn := usn } else a.object
      secret := if a.secretWins u then some { u.secretStamp with localUsn := usn } else a.secret }
  else a
end Account

@[simp] theorem account_writePrincipalMerged (db : Db κ) (sam : String) (p : AdPrincipal κ)
    (o s : ReplStamp) : (db.writePrincipalMerged sam p o s).account sam =
      ⟨some p, some o, some s⟩ := by
  have h : ¬ Db.secretKey sam = sam := (ne_secretKey sam).symm
  simp only [Db.account, Db.writePrincipalMerged, Db.replStamp, Std.ExtTreeMap.getElem?_insert,
    Std.compare_eq_iff_eq, h, if_true, if_false]

theorem account_apply (db : Db κ) (sam : String) (u : PrincipalUpdate κ) :
    (db.applyReplicatedPrincipalMerged sam u).2.account sam =
      (db.account sam).merge (db.highestUsn + 1) u := by
  unfold Db.applyReplicatedPrincipalMerged Account.merge
  have ho : (db.replStamp sam).all (u.objectStamp.winsOver ·) = (db.account sam).objectWins u := rfl
  have hs : (db.replStamp (Db.secretKey sam)).all (u.secretStamp.winsOver ·) =
    (db.account sam).secretWins u := rfl
  have object : (db.account sam).objectWins u = false →
      some ((db.replStamp sam).getD u.objectStamp) = (db.account sam).object := by
    rw [← ho]
    simp only [Db.account]
    cases db.replStamp sam <;> simp
  have secret : (db.account sam).secretWins u = false →
      some ((db.replStamp (Db.secretKey sam)).getD u.secretStamp) = (db.account sam).secret := by
    rw [← hs]
    simp only [Db.account]
    cases db.replStamp (Db.secretKey sam) <;> simp
  have row : db.principals[sam]? = (db.account sam).row := rfl
  simp only [ho, hs, row]
  cases how : (db.account sam).objectWins u <;> cases hsw : (db.account sam).secretWins u <;>
    cases (db.account sam).row <;> simp [Db.allocateUsn, how, hsw, object, secret]

/-! ### The registers -/

/-- The part of a change that the object stamp decides. -/
structure ObjectWrite where
  stamp : ReplStamp
  rid : Nat
  disabled : Bool
deriving DecidableEq

/-- The part of a change that the secret stamp decides. -/
structure SecretWrite (κ : Type) where
  stamp : ReplStamp
  ntHash : κ
  kerberosKey : Option κ
deriving DecidableEq

def Db.PrincipalUpdate.object (u : PrincipalUpdate κ) : ObjectWrite :=
  ⟨u.objectStamp.origin, u.rid, u.disabled⟩

def Db.PrincipalUpdate.secret (u : PrincipalUpdate κ) : SecretWrite κ :=
  ⟨u.secretStamp.origin, u.ntHash, u.kerberosKey⟩

namespace Account

/-- Stamps are held only together with the account they belong to. -/
def Whole (a : Account κ) : Prop := a.row = none → a.object = none ∧ a.secret = none

def objectHeld (a : Account κ) : Option ObjectWrite :=
  a.row.bind fun p => a.object.map fun s => ⟨s.origin, p.rid, p.disabled⟩

def secretHeld (a : Account κ) : Option (SecretWrite κ) :=
  a.row.bind fun p => a.secret.map fun s => ⟨s.origin, p.ntHash, p.kerberosKey⟩

/-- The account without the positions its stamps have in this store. -/
def view (a : Account κ) : Option (AdPrincipal κ) × Option ReplStamp × Option ReplStamp :=
  (a.row, a.object.map (·.origin), a.secret.map (·.origin))

theorem Whole.merge {a : Account κ} (h : a.Whole) (usn : Int) (u : PrincipalUpdate κ) :
    (a.merge usn u).Whole := by
  unfold Account.merge
  by_cases hw : a.objectWins u || a.secretWins u
  · rw [if_pos hw]
    exact fun hrow => absurd hrow (by simp)
  · rwa [if_neg hw]

/-- Both registers take the change if it is later than what they hold. -/
theorem Whole.held_merge {a : Account κ} (h : a.Whole) (usn : Int) (u : PrincipalUpdate κ) :
    (a.merge usn u).objectHeld = latest (·.stamp.key) a.objectHeld u.object ∧
      (a.merge usn u).secretHeld = latest (·.stamp.key) a.secretHeld u.secret := by
  obtain ⟨_ | p, object, secret⟩ := a
  · obtain ⟨rfl, rfl⟩ : object = none ∧ secret = none := h rfl
    simp [Account.merge, objectWins, secretWins, objectHeld, secretHeld, latest,
      PrincipalUpdate.object, PrincipalUpdate.secret]
  · have hobject : (objectHeld ⟨some p, object, secret⟩).all (·.stamp.key < u.object.stamp.key) =
        objectWins ⟨some p, object, secret⟩ u := by
      cases object <;> simp [objectHeld, objectWins, PrincipalUpdate.object, ReplStamp.winsOver]
    have hsecret : (secretHeld ⟨some p, object, secret⟩).all (·.stamp.key < u.secret.stamp.key) =
        secretWins ⟨some p, object, secret⟩ u := by
      cases secret <;> simp [secretHeld, secretWins, PrincipalUpdate.secret, ReplStamp.winsOver]
    unfold latest Account.merge
    rw [hobject, hsecret]
    cases objectWins ⟨some p, object, secret⟩ u <;> cases secretWins ⟨some p, object, secret⟩ u <;>
      simp [objectHeld, secretHeld, PrincipalUpdate.object, PrincipalUpdate.secret]

/-- The identifier is the one of the change or the one that was held. -/
theorem rid_merge {a : Account κ} {usn : Int} {u : PrincipalUpdate κ} {p : AdPrincipal κ}
    (h : p ∈ (a.merge usn u).row) : p.rid = u.rid ∨ ∃ q ∈ a.row, p.rid = q.rid := by
  unfold Account.merge at h
  by_cases hw : a.objectWins u || a.secretWins u
  · rw [if_pos hw] at h
    obtain rfl := Option.some.inj h
    by_cases ho : a.objectWins u
    · simp [ho]
    · cases a.row <;> simp [ho]
  · rw [if_neg hw] at h
    exact .inr ⟨p, h, rfl⟩

/-- The stamps are such registers of their own, whether or not the account is there. -/
theorem stamps_merge (a : Account κ) (usn : Int) (u : PrincipalUpdate κ) :
    (a.merge usn u).object.map (·.origin) =
        latest ReplStamp.key (a.object.map (·.origin)) u.objectStamp.origin ∧
      (a.merge usn u).secret.map (·.origin) =
        latest ReplStamp.key (a.secret.map (·.origin)) u.secretStamp.origin := by
  have wins (held : Option ReplStamp) (s : ReplStamp) :
      (held.map (·.origin)).all (·.key < s.origin.key) = held.all (s.winsOver ·) := by
    cases held with
    | none => rfl
    | some t => exact decide_eq_decide.mpr Iff.rfl
  unfold latest Account.merge
  rw [wins, wins, ← objectWins, ← secretWins]
  cases a.objectWins u <;> cases a.secretWins u <;> simp

/-- The account is there and so are both of its stamps. -/
def Complete (a : Account κ) : Prop := a.row.isSome ∧ a.object.isSome ∧ a.secret.isSome

theorem Whole.complete_merge {a : Account κ} (h : a.Whole) (usn : Int) (u : PrincipalUpdate κ) :
    (a.merge usn u).Complete := by
  have hobj : a.objectWins u = false → a.object.isSome := by
    unfold objectWins; cases a.object <;> simp
  have hsec : a.secretWins u = false → a.secret.isSome := by
    unfold secretWins; cases a.secret <;> simp
  unfold Account.merge Complete
  cases ho : a.objectWins u <;> cases hs : a.secretWins u
  · have hrow : a.row ≠ none := fun hrow => by simpa [(h hrow).1] using hobj ho
    simpa [hobj ho, hsec hs, Option.isSome_iff_ne_none] using hrow
  all_goals simp [ho, hs, hobj, hsec]

/-- The registers say all there is to know of a complete account. -/
theorem Complete.view_eq {a b : Account κ} (ha : a.Complete) (hb : b.Complete)
    (object : a.objectHeld = b.objectHeld) (secret : a.secretHeld = b.secretHeld) :
    a.view = b.view := by
  obtain ⟨⟨p, hp⟩, ⟨o, ho⟩, s, hs⟩ := ha.imp Option.isSome_iff_exists.mp
    (And.imp Option.isSome_iff_exists.mp Option.isSome_iff_exists.mp)
  obtain ⟨⟨p', hp'⟩, ⟨o', ho'⟩, s', hs'⟩ := hb.imp Option.isSome_iff_exists.mp
    (And.imp Option.isSome_iff_exists.mp Option.isSome_iff_exists.mp)
  obtain ⟨rid, nt, kerb, dis⟩ := p
  obtain ⟨rid', nt', kerb', dis'⟩ := p'
  simp only [objectHeld, secretHeld, view, hp, hp', ho, ho', hs, hs', Option.bind_some,
    Option.map_some, Option.some.injEq, ObjectWrite.mk.injEq, SecretWrite.mk.injEq] at object secret ⊢
  simp [object, secret]

end Account

/-! ### Any order -/

/-- The changes of one account that arrive one after the other. -/
def Db.applyAll (db : Db κ) (sam : String) (us : List (PrincipalUpdate κ)) : Db κ :=
  us.foldl (fun db u => (db.applyReplicatedPrincipalMerged sam u).2) db

theorem stamps_applyAll (db : Db κ) (sam : String) (us : List (PrincipalUpdate κ)) :
    ((db.applyAll sam us).account sam).object.map (·.origin) =
        (us.map (·.objectStamp.origin)).foldl (latest ReplStamp.key)
          ((db.account sam).object.map (·.origin)) ∧
      ((db.applyAll sam us).account sam).secret.map (·.origin) =
        (us.map (·.secretStamp.origin)).foldl (latest ReplStamp.key)
          ((db.account sam).secret.map (·.origin)) := by
  induction us generalizing db with
  | nil => exact ⟨rfl, rfl⟩
  | cons u us ih =>
    obtain ⟨object, secret⟩ := (db.account sam).stamps_merge (db.highestUsn + 1) u
    rw [List.map_cons, List.map_cons, List.foldl_cons, List.foldl_cons, ← object, ← secret,
      ← account_apply]
    exact ih _

/-- A run of changes on a whole account is a run on its two registers. -/
theorem held_applyAll (db : Db κ) (sam : String) (us : List (PrincipalUpdate κ))
    (h : (db.account sam).Whole) :
    ((db.applyAll sam us).account sam).objectHeld =
        (us.map (·.object)).foldl (latest (·.stamp.key)) (db.account sam).objectHeld ∧
      ((db.applyAll sam us).account sam).secretHeld =
        (us.map (·.secret)).foldl (latest (·.stamp.key)) (db.account sam).secretHeld := by
  induction us generalizing db with
  | nil => exact ⟨rfl, rfl⟩
  | cons u us ih =>
    have hu : ((db.applyReplicatedPrincipalMerged sam u).2.account sam).Whole := by
      rw [account_apply]
      exact h.merge _ u
    obtain ⟨ho, hs⟩ := ih _ hu
    rw [account_apply, (h.held_merge _ u).1] at ho
    rw [account_apply, (h.held_merge _ u).2] at hs
    exact ⟨ho, hs⟩

theorem complete_applyAll (db : Db κ) (sam : String) (u : PrincipalUpdate κ)
    (us : List (PrincipalUpdate κ)) (h : (db.account sam).Whole) :
    ((db.applyAll sam (u :: us)).account sam).Complete := by
  induction us generalizing db u with
  | nil =>
    change ((db.applyReplicatedPrincipalMerged sam u).2.account sam).Complete
    rw [account_apply]
    exact h.complete_merge _ u
  | cons v us ih =>
    refine ih (db.applyReplicatedPrincipalMerged sam u).2 v ?_
    rw [account_apply]
    exact h.merge _ u

/-- Changes with the same stamp for an attribute are the same for that attribute. -/
def Consistent (us : List (PrincipalUpdate κ)) : Prop :=
  ∀ u ∈ us, ∀ v ∈ us,
    (u.objectStamp.key = v.objectStamp.key → u.object = v.object) ∧
    (u.secretStamp.key = v.secretStamp.key → u.secret = v.secret)

/-- The stamp stored is the greatest of the one at the start and those of the changes. -/
def IsMaximum (start : Option ReplStamp) (stamps : List ReplStamp) (stored : Option ReplStamp) :
    Prop :=
  ∀ k, (∃ s ∈ stored, s.key = k) ↔
    IsGreatest {k | ∃ s, (s ∈ start ∨ s ∈ stamps) ∧ s.key = k} k

/-- Any two arrivals of the same changes leave the same account with the same stamps, the greatest
there are. -/
def Convergent (db : Db κ) (sam : String) : Prop :=
  ∀ us us' : List (PrincipalUpdate κ), (∀ u, u ∈ us ↔ u ∈ us') → Consistent us →
    ((db.applyAll sam us).account sam).view = ((db.applyAll sam us').account sam).view ∧
    IsMaximum (db.replStamp sam) (us.map (·.objectStamp)) ((db.applyAll sam us).replStamp sam) ∧
    IsMaximum (db.replStamp (Db.secretKey sam)) (us.map (·.secretStamp))
      ((db.applyAll sam us).replStamp (Db.secretKey sam))

theorem isMaximum_of_origin {start stored : Option ReplStamp} {stamps : List ReplStamp}
    (h : stored.map (·.origin) = (stamps.map (·.origin)).foldl (latest ReplStamp.key)
      (start.map (·.origin))) : IsMaximum start stamps stored := by
  intro k
  have := (isLatest_foldl ReplStamp.key (start.map (·.origin))
    (stamps.map (·.origin))).isGreatest_iff k
  rw [← h] at this
  simpa [or_and_right, exists_or] using this

/-- A stamp some seconds away from the given one. -/
def ReplStamp.shift (s : ReplStamp) (seconds : Int) : ReplStamp :=
  { s with originatingTime := s.originatingTime + seconds }

@[simp] theorem ReplStamp.key_shift_lt (s : ReplStamp) (d e : Int) :
    (s.shift d).key < (s.shift e).key ↔ d < e := by
  simp [ReplStamp.shift, ReplStamp.key, Prod.Lex.toLex_lt_toLex]

@[simp] theorem ReplStamp.key_lt_shift (s : ReplStamp) (d : Int) :
    s.key < (s.shift d).key ↔ 0 < d := by
  simpa [ReplStamp.shift] using s.key_shift_lt 0 d

@[simp] theorem ReplStamp.shift_key_inj (s : ReplStamp) (d e : Int) :
    (s.shift d).key = (s.shift e).key ↔ d = e := by
  simp [ReplStamp.shift, ReplStamp.key]

/-- A change with stamps at some distance from the given ones. -/
def shifted [Inhabited κ] (object secret : ReplStamp) (d e : Int) (rid : Nat)
    (kerberosKey : Option κ) : PrincipalUpdate κ where
  rid := rid
  ntHash := default
  kerberosKey := kerberosKey
  disabled := false
  objectStamp := object.shift d
  secretStamp := secret.shift e

/-- Two changes, each arriving first once. -/
theorem Convergent.swap {db : Db κ} {sam : String} (h : Convergent db sam)
    (u v : PrincipalUpdate κ) (hu : u.objectStamp.key ≠ v.objectStamp.key)
    (hv : u.secretStamp.key ≠ v.secretStamp.key) :
    ((db.applyAll sam [u, v]).account sam).row = ((db.applyAll sam [v, u]).account sam).row := by
  have consistent : Consistent [u, v] := by
    intro w hw w' hw'
    simp only [List.mem_cons, List.not_mem_nil, or_false] at hw hw'
    rcases hw with rfl | rfl <;> rcases hw' with rfl | rfl <;> simp [hu, hv, hu.symm, hv.symm]
  have := (h [u, v] [v, u] (by simp [or_comm]) consistent).1
  exact congrArg Prod.fst this

/-- Stamps left without an account let a change that loses to them bring its values. -/
theorem Convergent.whole [Inhabited κ] {db : Db κ} {sam : String} (h : Convergent db sam) :
    (db.account sam).Whole := by
  have run (u v : PrincipalUpdate κ) : (db.applyAll sam [u, v]).account sam =
      ((db.account sam).merge (db.highestUsn + 1) u).merge
        ((db.applyReplicatedPrincipalMerged sam u).2.highestUsn + 1) v := by
    rw [← account_apply, ← account_apply]
    rfl
  intro hrow
  by_contra hstamps
  cases hobj : (db.account sam).object with
  | some s =>
    -- both lose to the stamp of the object, and the first to arrive gives its identifier
    have := h.swap (shifted s ((db.account sam).secret.getD s) (-1) 1 0 none)
      (shifted s ((db.account sam).secret.getD s) (-2) 2 1 none) (by simp [shifted])
      (by simp [shifted])
    rw [run, run] at this
    cases hsec : (db.account sam).secret <;>
      simp [Account.merge, Account.objectWins, Account.secretWins, shifted, hrow, hobj, hsec] at this
  | none =>
    cases hsec : (db.account sam).secret with
    | none => exact hstamps ⟨hobj, hsec⟩
    | some t =>
      -- both lose to the stamp of the password, and the first to arrive gives its key
      have := h.swap (shifted t t 1 (-1) 0 none) (shifted t t 2 (-2) 0 (some default))
        (by simp [shifted]) (by simp [shifted])
      rw [run, run] at this
      simp [Account.merge, Account.objectWins, Account.secretWins, shifted, hrow, hobj, hsec] at this

theorem Account.Whole.convergent {db : Db κ} {sam : String} (h : (db.account sam).Whole) :
    Convergent db sam := by
  intro us us' same consistent
  refine ⟨?_, isMaximum_of_origin ?_, isMaximum_of_origin ?_⟩
  · cases us with
    | nil =>
      cases us' with
      | nil => rfl
      | cons u us' => exact absurd ((same u).mpr (by simp)) (by simp)
    | cons u us =>
      cases us' with
      | nil => exact absurd ((same u).mp (by simp)) (by simp)
      | cons u' us' =>
        obtain ⟨object, secret⟩ := held_applyAll db sam (u :: us) h
        obtain ⟨object', secret'⟩ := held_applyAll db sam (u' :: us') h
        refine (complete_applyAll db sam u us h).view_eq (complete_applyAll db sam u' us' h) ?_ ?_
        · rw [object, object']
          refine foldl_latest_congr (fun w => ?_) ?_
          · simp only [List.mem_map, same]
          · simp only [List.forall_mem_map]
            exact fun v hv w hw hkey => (consistent v hv w hw).1 hkey
        · rw [secret, secret']
          refine foldl_latest_congr (fun w => ?_) ?_
          · simp only [List.mem_map, same]
          · simp only [List.forall_mem_map]
            exact fun v hv w hw hkey => (consistent v hv w hw).2 hkey
  · rw [List.map_map]
    exact (stamps_applyAll db sam us).1
  · rw [List.map_map]
    exact (stamps_applyAll db sam us).2

/-- Replicated changes of an account converge from exactly those states that hold no stamp without
the account. -/
theorem convergent_iff [Inhabited κ] (db : Db κ) (sam : String) :
    Convergent db sam ↔ (db.account sam).Whole :=
  ⟨Convergent.whole, Account.Whole.convergent⟩

section Sample

def stampAt (version : UInt32) (time : Int) (dsa : Dsa) : ReplStamp where
  version := version
  originatingTime := time
  originatingDsa := dsa
  originatingUsn := time
  localUsn := 0

def change (rid secret : Nat) (object password : ReplStamp) : PrincipalUpdate Nat where
  rid := rid
  ntHash := secret
  kerberosKey := some secret
  disabled := false
  objectStamp := object
  secretStamp := password

/-- An account that was renamed at its origin, so that two rows have its identifier, and was then
deleted: the stamps of the row the store did not find first are left. -/
def orphaned : Db Nat :=
  let db : Db Nat := (Db.new 1).applyAll "jsmith" [change 1105 7 (stampAt 3 10 2) (stampAt 3 10 2)]
  let db := db.applyAll "jdoe" [change 1105 7 (stampAt 4 20 2) (stampAt 3 10 2)]
  (db.deleteReplicatedPrincipal 1105).2

/-- Two changes of a new account with the old name: the one that arrives first gives the
identifier, whichever has the later stamp. -/
theorem orphan_stamps_diverge : ¬ Convergent orphaned "jsmith" := by
  intro h
  have := h.swap (change 1201 8 (stampAt 1 30 2) (stampAt 4 30 2))
    (change 1202 8 (stampAt 2 40 2) (stampAt 5 40 2)) (by decide) (by decide)
  revert this
  decide +kernel

end Sample

end Magnetite.Repl
