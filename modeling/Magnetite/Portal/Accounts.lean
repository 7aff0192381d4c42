import Magnetite.Lib.History
import Magnetite.Lib.Rows
import Mathlib.Logic.Function.Basic
import Mathlib.Order.Lattice

/-!
# Portal accounts and sessions

Local accounts, the sessions opened for them, and the requests that work on both. Every database
call of a request is a step of its own, and the steps of all requests interleave.
-/
namespace Magnetite.Portal
open Lib

abbrev Instant := Nat

inductive Role where
  | viewer | operator | admin
  deriving DecidableEq, Repr

def Role.rank : Role → Nat
  | .viewer => 0
  | .operator => 1
  | .admin => 2

theorem Role.rank_injective : Function.Injective Role.rank := by
  intro a b h
  cases a <;> cases b <;> first | rfl | cases h

/-- A higher role subsumes the lower ones. -/
instance : LinearOrder Role := LinearOrder.lift' Role.rank Role.rank_injective

structure Account where
  username : String
  role : Role
  enabled : Bool
  deriving DecidableEq, Repr

def Account.IsEnabledAdmin (a : Account) : Bool := a.enabled && a.role == .admin

structure Session where
  sessionId : String
  subject : String
  role : Role
  expiresAt : Instant
  revokedAt : Option Instant
  deriving DecidableEq, Repr

def Session.isValidAt (now : Instant) (r : Session) : Bool :=
  r.revokedAt.isNone && decide (now < r.expiresAt)

def Session.revoke (now : Instant) (r : Session) : Session :=
  { r with revokedAt := some (r.revokedAt.getD now) }

def getValidSession (now : Instant) (rows : List Session) (sessionId : String) : Option Session :=
  (rows.find? (·.sessionId == sessionId)).filter (Session.isValidAt now)

def revokeSession (now : Instant) (sessionId : String) (rows : List Session) : List Session :=
  Rows.update (·.sessionId) sessionId (Session.revoke now) rows

def revokeSessionsForSubject (now : Instant) (subject : String) (rows : List Session) :
    List Session :=
  Rows.update (·.subject) subject (Session.revoke now) rows

/-- The text comparison of `expires_at` is taken as that of the instants. -/
def cleanupExpiredSessions (now : Instant) (rows : List Session) : List Session :=
  rows.filter fun r => !(decide (r.expiresAt < now) || r.revokedAt.isSome)

/-! ## Account changes -/

/-- `set_account_role`, `set_account_enabled` and `delete_account`. -/
inductive Change where
  | role (r : Role)
  | enabled (b : Bool)
  | delete
  deriving DecidableEq, Repr

namespace Change

/-- Whether the change can take an administrator away. -/
def restricts : Change → Bool
  | .role r => r != .admin
  | .enabled b => !b
  | .delete => true

/-- Whether the change asks for the number of enabled administrators (`is_last_enabled_admin`
looks at the account it has first). -/
def counts (c : Change) (account : Account) : Bool := c.restricts && account.IsEnabledAdmin

def refusal : Change → String
  | .role _ => "最後の管理者アカウントは変更できません。"
  | .enabled _ => "最後の管理者アカウントは無効化できません。"
  | .delete => "最後の管理者アカウントは削除できません。"

/-- The write to the account table. -/
def apply (c : Change) (username : String) (rows : List Account) : List Account :=
  match c with
  | .role r => Rows.update (·.username) username (fun a => { a with role := r }) rows
  | .enabled b => Rows.update (·.username) username (fun a => { a with enabled := b }) rows
  | .delete => Rows.delete (·.username) username rows

/-- Whether the sessions of the account are revoked behind the write. -/
def revokes : Change → Bool
  | .role _ => false
  | .enabled b => !b
  | .delete => true

end Change

def findAccountByUsername (rows : List Account) (username : String) : Option Account :=
  rows.find? (·.username == username)

def countEnabledAdmins (rows : List Account) : Nat := rows.countP Account.IsEnabledAdmin

/-! ## The system -/

/-- The next database call of a request. -/
inductive Task where
  | counting (c : Change) (username : String)
  | writing (c : Change) (username : String)
  | revoking (c : Change) (username : String)
  | inserting (username : String) (role : Role)
  /-- `create_first_admin` waits for `setup_lock`, and holds it in its further stages. -/
  | setupWaiting (username : String)
  | setupCounting (username : String)
  | setupFinding (username : String)
  | setupInserting (username : String)
  /-- The credentials are verified, or the first administrator created. -/
  | opening (username : String) (role : Role)
  deriving DecidableEq, Repr

structure System where
  accounts : List Account
  sessions : List Session
  setupLock : Option Nat
  now : Instant
  tasks : Nat → Option Task

inductive Event where
  | create (i : Nat) (username : String) (role : Role)
  | setup (i : Nat) (username : String)
  | change (i : Nat) (c : Change) (username : String)
  /-- A login with a password; `accepted`: it matches. -/
  | login (i : Nat) (username : String) (accepted : Bool)
  /-- The next call of a request; `fresh` is the identifier of a session it opens. -/
  | work (i : Nat) (fresh : String)
  /-- The next call of a request fails in the store. -/
  | fail (i : Nat)
  | request (sessionId : String)
  | revoke (sessionId : String)
  | cleanup
  | tick (d : Nat)
  deriving DecidableEq, Repr

inductive Reply where
  | done
  | setUp
  | notFound
  | constraint (message : String)
  | storeError
  | loginError
  | user (u : Option (String × Role))
  deriving DecidableEq, Repr

def msgUsernameDup : String := "同じユーザ名が既に存在します。"
def msgIndex : String := "Database index already contains"
def msgSetupDone : String := "setup already completed"

/-- Sessions live for a day, counted in seconds. -/
def sessionTtl : Nat := 24 * 3600

namespace System

def finish (s : System) (i : Nat) : System :=
  { s with tasks := Function.update s.tasks i none }

def wait (s : System) (i : Nat) (task : Task) : System :=
  { s with tasks := Function.update s.tasks i (some task) }

/-- The guard of `create_first_admin` is dropped when the function returns. -/
def release (s : System) : System := { s with setupLock := none }

/-- `CREATE account` under the unique index over user names. -/
def insertAccount (s : System) (username : String) (role : Role) : Option System :=
  if s.accounts.any (·.username == username) then none
  else some { s with accounts := s.accounts ++ [⟨username, role, true⟩] }

/-- The next call of request `i`, which is at `task`. -/
def advance (s : System) (i : Nat) (fresh : String) : Task → Option (System × Option Reply)
  | .counting c username =>
    if countEnabledAdmins s.accounts ≤ 1 then some (s.finish i, some (.constraint c.refusal))
    else some (s.wait i (.writing c username), none)
  | .writing c username =>
    let s := { s with accounts := c.apply username s.accounts }
    if c.revokes then some (s.wait i (.revoking c username), none)
    else some (s.finish i, some .done)
  | .revoking _ username =>
    some ({ s.finish i with sessions := revokeSessionsForSubject s.now username s.sessions },
      some .done)
  | .inserting username role =>
    match s.insertAccount username role with
    | none => some (s.finish i, some (.constraint msgIndex))
    | some s => some (s.finish i, some .done)
  | .setupWaiting username =>
    match s.setupLock with
    | some _ => none
    | none => some ({ s.wait i (.setupCounting username) with setupLock := some i }, none)
  | .setupCounting username =>
    if s.accounts.length > 0 then some (s.release.finish i, some (.constraint msgSetupDone))
    else some (s.wait i (.setupFinding username), none)
  | .setupFinding username =>
    match findAccountByUsername s.accounts username with
    | some _ => some (s.release.finish i, some (.constraint msgUsernameDup))
    | none => some (s.wait i (.setupInserting username), none)
  | .setupInserting username =>
    match s.insertAccount username .admin with
    | none => some (s.release.finish i, some (.constraint msgIndex))
    | some s => some (s.release.wait i (.opening username .admin), some .setUp)
  | .opening username role =>
    some ({ s.finish i with
      sessions := s.sessions ++ [⟨fresh, username, role, s.now + sessionTtl, none⟩] },
      some .done)

def holdsLock : Task → Bool
  | .setupCounting _ | .setupFinding _ | .setupInserting _ => true
  | _ => false

def step (s : System) : Event → Option (System × Option Reply)
  | .create i username role =>
    if (s.tasks i).isSome then none
    else match findAccountByUsername s.accounts username with
      | some _ => some (s, some (.constraint msgUsernameDup))
      | none => some (s.wait i (.inserting username role), none)
  | .setup i username =>
    if (s.tasks i).isSome then none else some (s.wait i (.setupWaiting username), none)
  | .change i c username =>
    if (s.tasks i).isSome then none
    else match findAccountByUsername s.accounts username with
      | none => some (s, some .notFound)
      | some account =>
        if c.counts account then some (s.wait i (.counting c username), none)
        else some (s.wait i (.writing c username), none)
  | .login i username accepted =>
    if (s.tasks i).isSome then none
    else match findAccountByUsername s.accounts username with
      | none => some (s, some .loginError)
      | some account =>
        if account.enabled && accepted then
          some (s.wait i (.opening account.username account.role), none)
        else some (s, some .loginError)
  | .work i fresh =>
    match s.tasks i with
    | none => none
    | some task => s.advance i fresh task
  | .fail i =>
    match s.tasks i with
    | none => none
    | some task =>
      if holdsLock task then some (s.release.finish i, some .storeError)
      else some (s.finish i, some .storeError)
  | .request sessionId =>
    some (s, some (.user ((getValidSession s.now s.sessions sessionId).map
      fun r => (r.subject, r.role))))
  | .revoke sessionId =>
    some ({ s with sessions := revokeSession s.now sessionId s.sessions }, none)
  | .cleanup => some ({ s with sessions := cleanupExpiredSessions s.now s.sessions }, none)
  | .tick d => some ({ s with now := s.now + d }, none)

/-- A label is an event with what its step replies. -/
abbrev Label := Event × Option Reply

def Step (s : System) (l : Label) (t : System) : Prop := s.step l.1 = some (t, l.2)

theorem exists_run (s : System) (events : List Event) (P : List Label → System → Prop)
    [∀ labels t, Decidable (P labels t)]
    (h : (trace step s events).any (fun p => decide (P p.1 p.2)) = true) :
    ∃ labels t, Run Step s labels t ∧ P labels t :=
  exists_run_of_trace step s events P h

/-- A new installation. -/
def blank (now : Instant) : System := ⟨[], [], none, now, fun _ => none⟩

end System

end Magnetite.Portal
