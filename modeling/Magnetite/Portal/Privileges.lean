import Magnetite.Portal.Steps

/-!
# Sessions and the accounts behind them

A session keeps the role that the account had when its credentials were checked. The session is
opened in a later call, a role change leaves sessions alone, and disabling and deleting revoke them
in a call behind the write.
-/
namespace Magnetite.Portal
open Lib

/-- The user has an enabled account with at least this role. -/
def Backed (rows : List Account) (username : String) (role : Role) : Prop :=
  ∃ a ∈ rows, a.username = username ∧ a.enabled = true ∧ role ≤ a.role

/-- The account keeps at least this role under the change. -/
def Change.allows : Change → Role → Prop
  | .role r, least => least ≤ r
  | .enabled b, _ => b = true
  | .delete, _ => False

theorem Backed.apply {rows : List Account} {username user : String} {role : Role} {c : Change}
    (h : Backed rows user role) (allowed : user = username → c.allows role) :
    Backed (c.apply username rows) user role := by
  obtain ⟨a, ha, rfl, henabled, hrole⟩ := h
  by_cases hname : a.username = username
  · cases c with
    | role r =>
      exact ⟨{ a with role := r }, Rows.mem_update.mpr (.inl ⟨a, ha, hname, rfl⟩), rfl, henabled,
        allowed hname⟩
    | enabled b =>
      exact ⟨{ a with enabled := b }, Rows.mem_update.mpr (.inl ⟨a, ha, hname, rfl⟩), rfl,
        allowed hname, hrole⟩
    | delete => exact (allowed hname).elim
  · exact ⟨a, Change.mem_apply_of_ne ha hname, rfl, henabled, hrole⟩

theorem Backed.append {rows : List Account} {user : String} {role : Role}
    (h : Backed rows user role) (new : List Account) : Backed (rows ++ new) user role := by
  obtain ⟨a, ha, rest⟩ := h
  exact ⟨a, List.mem_append_left _ ha, rest⟩

namespace System

variable {s t : System} {past : List Label}

/-- The sessions of this user are about to be revoked. -/
def IsRevoking (s : System) (username : String) : Prop :=
  ∃ i c, s.tasks i = some (.revoking c username)

/-- What keeps the sessions behind their accounts:
a write takes nothing from the user that a login between its check and its session has, nor, if no
revocation follows, that a valid session has; a revocation does not fail; and a request does not
come between the write and the revocation. -/
def Careful (s : System) (l : Label) : Prop :=
  match l.1 with
  | .work i _ => ∀ c username, s.tasks i = some (.writing c username) →
    (∀ j role, s.tasks j = some (.opening username role) → c.allows role) ∧
    (c.revokes = false → ∀ x ∈ s.sessions, x.subject = username → x.isValidAt s.now = true →
      c.allows x.role)
  | .fail i => ∀ c username, s.tasks i ≠ some (.revoking c username)
  | .request sessionId =>
    ∀ x, getValidSession s.now s.sessions sessionId = some x → ¬ s.IsRevoking x.subject
  | _ => True

/-- Logins and valid sessions have an account behind them, or the sessions are about to go. -/
structure Follows (s : System) : Prop where
  openings : ∀ i username role, s.tasks i = some (.opening username role) →
    Backed s.accounts username role
  sessions : ∀ x ∈ s.sessions, x.isValidAt s.now = true →
    Backed s.accounts x.subject x.role ∨ s.IsRevoking x.subject

/-- A step that takes nothing from any account and ends no revocation. -/
theorem Follows.of_backed (h : Follows s)
    (haccounts : ∀ user role, Backed s.accounts user role → Backed t.accounts user role)
    (hopenings : ∀ i user role, t.tasks i = some (.opening user role) →
      s.tasks i = some (.opening user role) ∨ Backed t.accounts user role)
    (hsessions : ∀ x ∈ t.sessions, x.isValidAt t.now = true →
      (x ∈ s.sessions ∧ x.isValidAt s.now = true) ∨ Backed t.accounts x.subject x.role)
    (hrevoking : ∀ user, s.IsRevoking user → t.IsRevoking user) : Follows t where
  openings i user role ht :=
    (hopenings i user role ht).elim (fun hs => haccounts _ _ (h.openings i user role hs)) id
  sessions x hx hvalid := by
    obtain ⟨hs, hvalid⟩ | hbacked := hsessions x hx hvalid
    · exact (h.sessions x hs hvalid).imp (haccounts _ _) (hrevoking _)
    · exact .inl hbacked

/-- Request `i` goes on, and it was not at its revocation. -/
theorem IsRevoking.of_tasks {i : Nat} (hne : ∀ c username, s.tasks i ≠ some (.revoking c username))
    (htasks : ∀ j, j ≠ i → t.tasks j = s.tasks j) (user : String) (h : s.IsRevoking user) :
    t.IsRevoking user := by
  obtain ⟨j, c, hj⟩ := h
  have hji : j ≠ i := by
    rintro rfl
    exact hne c user hj
  exact ⟨j, c, (htasks j hji).trans hj⟩

theorem opening_of_finish {i j : Nat} {user : String} {role : Role}
    (h : (s.finish i).tasks j = some (.opening user role)) :
    s.tasks j = some (.opening user role) := (finish_tasks h).2

theorem opening_of_wait {i j : Nat} {new : Task} (hnew : ∀ u r, new ≠ .opening u r)
    {user : String} {role : Role} (h : (s.wait i new).tasks j = some (.opening user role)) :
    s.tasks j = some (.opening user role) := by
  obtain ⟨-, h⟩ | ⟨-, he⟩ := wait_tasks h
  · exact h
  · exact absurd he.symm (hnew user role)

/-- A write, with everything a careful step asks of it. -/
theorem Follows.write (h : Follows s) {i : Nat} {c : Change} {username : String}
    (htask : s.tasks i = some (.writing c username))
    (hopen : ∀ j role, s.tasks j = some (.opening username role) → c.allows role)
    (hkept : c.revokes = false → ∀ x ∈ s.sessions, x.subject = username →
      x.isValidAt s.now = true → c.allows x.role)
    (haccounts : t.accounts = c.apply username s.accounts) (hsessions : t.sessions = s.sessions)
    (hnow : t.now = s.now) (htasks : ∀ j, j ≠ i → t.tasks j = s.tasks j)
    (hi : ∀ user role, t.tasks i ≠ some (.opening user role))
    (hrevokes : c.revokes = true → t.IsRevoking username) : Follows t where
  openings j user role ht := by
    have hj : j ≠ i := by
      rintro rfl
      exact hi user role ht
    rw [htasks j hj] at ht
    rw [haccounts]
    refine (h.openings j user role ht).apply ?_
    rintro rfl
    exact hopen j role ht
  sessions x hx hvalid := by
    rw [hsessions] at hx
    rw [hnow] at hvalid
    by_cases hsub : x.subject = username ∧ c.revokes = true
    · exact .inr (hsub.1 ▸ hrevokes hsub.2)
    · obtain hbacked | hrev := h.sessions x hx hvalid
      · rw [haccounts]
        refine .inl (hbacked.apply fun hname => hkept ?_ x hx hname hvalid)
        simpa [hname] using hsub
      · refine .inr (hrev.of_tasks (fun c' u he => ?_) htasks x.subject)
        rw [htask] at he
        cases he

theorem mem_revokeSessions {now : Instant} {subject : String} {rows : List Session} {x : Session}
    (hx : x ∈ revokeSessionsForSubject now subject rows) (hvalid : x.isValidAt now = true) :
    x ∈ rows ∧ x.subject ≠ subject := by
  obtain ⟨r, -, -, rfl⟩ | h := Rows.mem_update.mp hx
  · simp [Session.isValidAt, Session.revoke] at hvalid
  · exact h

/-- The sessions of the user are revoked. -/
theorem Follows.revoke (h : Follows s) {i : Nat} {c : Change} {username : String}
    (htask : s.tasks i = some (.revoking c username)) : Follows { s.finish i with
      sessions := revokeSessionsForSubject s.now username s.sessions } where
  openings j user role ht := h.openings j user role (opening_of_finish ht)
  sessions x hx hvalid := by
    obtain ⟨hmem, hne⟩ := mem_revokeSessions hx hvalid
    refine (h.sessions x hmem hvalid).imp id fun ⟨j, c', hj⟩ => ⟨j, c', ?_⟩
    have hji : j ≠ i := by
      rintro rfl
      rw [htask] at hj
      cases hj
      exact hne rfl
    exact (finish_tasks_of_ne hji).trans hj

theorem backed_of_find {rows : List Account} {username : String} {a : Account}
    (h : findAccountByUsername rows username = some a) (henabled : a.enabled = true) :
    Backed rows a.username a.role :=
  ⟨a, (mem_of_find h).1, rfl, henabled, le_rfl⟩

/-- A step that leaves accounts, sessions and the clock alone and ends no revocation. -/
theorem Follows.of_tasks (h : Follows s) (haccounts : t.accounts = s.accounts)
    (hsessions : t.sessions = s.sessions) (hnow : t.now = s.now)
    (hopenings : ∀ i user role, t.tasks i = some (.opening user role) →
      s.tasks i = some (.opening user role) ∨ Backed t.accounts user role)
    (hrevoking : ∀ user, s.IsRevoking user → t.IsRevoking user) : Follows t := by
  refine h.of_backed (fun _ _ hb => haccounts ▸ hb) hopenings (fun x hx hvalid => .inl ?_)
    hrevoking
  rw [hsessions] at hx
  rw [hnow] at hvalid
  exact ⟨hx, hvalid⟩

/-- `create_account` or `create_first_admin` has inserted an account. -/
theorem Follows.insert (h : Follows s) {username : String} {role : Role}
    (haccounts : t.accounts = s.accounts ++ [⟨username, role, true⟩])
    (hsessions : t.sessions = s.sessions) (hnow : t.now = s.now)
    (hopenings : ∀ j user r, t.tasks j = some (.opening user r) →
      s.tasks j = some (.opening user r) ∨ (user = username ∧ r = role))
    (hrevoking : ∀ user, s.IsRevoking user → t.IsRevoking user) : Follows t := by
  refine h.of_backed (fun _ _ hb => haccounts ▸ hb.append _) (fun j user r ht => ?_)
    (fun x hx hvalid => .inl ⟨hsessions ▸ hx, hnow ▸ hvalid⟩) hrevoking
  refine (hopenings j user r ht).imp id ?_
  rintro ⟨rfl, rfl⟩
  exact ⟨⟨user, r, true⟩, by simp [haccounts], rfl, rfl, le_rfl⟩

section Advance

variable {i : Nat} (h : Follows s) (hidle : ∀ c user, s.tasks i ≠ some (.revoking c user))
include h hidle

/-- The request ends and has written nothing. -/
theorem Follows.finished {lock : Option Nat} : Follows { s.finish i with setupLock := lock } :=
  h.of_tasks rfl rfl rfl (fun _ _ _ ht => .inl (opening_of_finish (s := s) ht)) fun _ hrev =>
    hrev.of_tasks hidle fun _ hj => Function.update_of_ne hj ..

/-- The request goes on to another call, which is not the session of a login. -/
theorem Follows.waits {new : Task} {lock : Option Nat}
    (hnew : ∀ user role, new ≠ .opening user role) : Follows { s.wait i new with setupLock := lock } :=
  h.of_tasks rfl rfl rfl (fun _ _ _ ht => .inl (opening_of_wait (s := s) hnew ht)) fun _ hrev =>
    hrev.of_tasks hidle fun _ hj => Function.update_of_ne hj ..

/-- A login comes to its session. -/
theorem Follows.opens {fresh username : String} {role : Role} {expiresAt : Instant}
    (htask : s.tasks i = some (.opening username role)) : Follows { s.finish i with
      sessions := s.sessions ++ [⟨fresh, username, role, expiresAt, none⟩] } := by
  refine h.of_backed (fun _ _ hb => hb) (fun _ _ _ ht => .inl (opening_of_finish (s := s) ht))
    (fun x hx hvalid => ?_) fun _ hrev => hrev.of_tasks hidle fun _ hj => Function.update_of_ne hj ..
  rcases List.mem_append.mp hx with hx | hx
  · exact .inl ⟨hx, hvalid⟩
  · obtain rfl := List.mem_singleton.mp hx
    exact .inr (h.openings i username role htask)

end Advance

theorem Follows.advance (h : Follows s) {i : Nat} {fresh : String} {out : Option Reply}
    (careful : Careful s (.work i fresh, out)) {task : Task} (htask : s.tasks i = some task)
    (hstep : s.advance i fresh task = some (t, out)) : Follows t := by
  have htasks : ∀ j, j ≠ i → t.tasks j = s.tasks j := fun j hj =>
    (moves_of_advance hstep).tasks_eq fun he => hj (Option.some.inj he).symm
  -- a request that is at another call does not end a revocation
  have idle (hne : ∀ c user, task ≠ .revoking c user) (c : Change) (user : String) :
      s.tasks i ≠ some (.revoking c user) := by
    rw [htask]
    exact fun he => hne c user (Option.some.inj he)
  cases task with
  | counting c username =>
    simp only [System.advance] at hstep
    split_ifs at hstep <;> cases hstep
    · exact h.finished (idle (by simp))
    · exact h.waits (idle (by simp)) (by simp)
  | writing c username =>
    obtain ⟨hopen, hkept⟩ := careful c username htask
    simp only [System.advance] at hstep
    split_ifs at hstep with hrevokes <;> cases hstep
    · have hi : (wait { s with accounts := c.apply username s.accounts } i
          (.revoking c username)).tasks i = some (.revoking c username) := Function.update_self ..
      refine h.write htask hopen hkept rfl rfl rfl htasks (fun user role he => ?_)
        fun _ => ⟨i, c, hi⟩
      rw [hi] at he
      cases he
    · refine h.write htask hopen hkept rfl rfl rfl htasks (fun user role he => ?_)
        fun hr => absurd hr hrevokes
      exact absurd rfl (finish_tasks he).1
  | revoking c username =>
    cases hstep
    exact h.revoke htask
  | inserting username role =>
    simp only [System.advance] at hstep
    split at hstep
    · cases hstep
      exact h.finished (idle (by simp))
    next hinsert =>
      obtain ⟨-, rfl⟩ := insertAccount_some hinsert
      cases hstep
      exact h.insert rfl rfl rfl (fun _ _ _ ht => .inl (opening_of_finish (s := s) ht))
        fun _ hrev => hrev.of_tasks (idle (by simp)) htasks
  | setupWaiting username =>
    simp only [System.advance] at hstep
    split at hstep <;> cases hstep
    exact h.waits (idle (by simp)) (by simp)
  | setupCounting username =>
    simp only [System.advance] at hstep
    split_ifs at hstep <;> cases hstep
    · exact h.finished (idle (by simp))
    · exact h.waits (idle (by simp)) (by simp)
  | setupFinding username =>
    simp only [System.advance] at hstep
    split at hstep <;> cases hstep
    · exact h.finished (idle (by simp))
    · exact h.waits (idle (by simp)) (by simp)
  | setupInserting username =>
    simp only [System.advance] at hstep
    split at hstep
    · cases hstep
      exact h.finished (idle (by simp))
    next hinsert =>
      obtain ⟨-, rfl⟩ := insertAccount_some hinsert
      cases hstep
      refine h.insert rfl rfl rfl (fun j user r ht => ?_) fun _ hrev =>
        hrev.of_tasks (idle (by simp)) htasks
      obtain ⟨-, ht⟩ | ⟨-, he⟩ := wait_tasks (s := s) ht
      · exact .inl ht
      · cases he
        exact .inr ⟨rfl, rfl⟩
  | opening username role =>
    cases hstep
    exact h.opens (idle (by simp)) htask

/-- A request begins. -/
theorem Follows.begin (h : Follows s) {i : Nat} (hfree : ¬ (s.tasks i).isSome = true) {new : Task}
    (hnew : ∀ user role, new = .opening user role → Backed s.accounts user role) :
    Follows (s.wait i new) := by
  refine h.of_tasks rfl rfl rfl (fun j user role ht => ?_) fun user hrev => ?_
  · obtain ⟨-, ht⟩ | ⟨-, he⟩ := wait_tasks ht
    · exact .inl ht
    · exact .inr (hnew user role he.symm)
  · refine hrev.of_tasks (i := i) (fun c u he => hfree ?_)
      (fun j hj => Function.update_of_ne hj _ _) user
    rw [he]
    rfl

/-- No session becomes valid. -/
theorem Follows.of_sessions (h : Follows s) (haccounts : t.accounts = s.accounts)
    (htasks : t.tasks = s.tasks)
    (hsessions : ∀ x ∈ t.sessions, x.isValidAt t.now = true →
      x ∈ s.sessions ∧ x.isValidAt s.now = true) : Follows t :=
  h.of_backed (fun _ _ hb => haccounts ▸ hb) (fun _ _ _ ht => .inl (htasks ▸ ht))
    (fun x hx hvalid => .inl (hsessions x hx hvalid)) fun _ ⟨j, c, hj⟩ => ⟨j, c, htasks ▸ hj⟩

theorem Follows.login (h : Follows s) {i : Nat} {username : String} {accepted : Bool}
    {out : Option Reply} (hstep : Step s (.login i username accepted, out) t) : Follows t := by
  simp only [Step, System.step] at hstep
  split_ifs at hstep with hfree
  split at hstep
  · cases hstep
    exact h
  next account hfound =>
    split_ifs at hstep with hok <;> cases hstep
    · refine h.begin hfree fun user role he => ?_
      cases he
      exact backed_of_find hfound (Bool.and_eq_true_iff.mp hok).1
    · exact h

theorem Follows.step (h : Follows s) {l : Label} (careful : Careful s l) (hstep : Step s l t) :
    Follows t := by
  obtain ⟨e, out⟩ := l
  cases e with
  | login i username accepted => exact h.login hstep
  | work i fresh =>
    simp only [Step, System.step] at hstep
    split at hstep
    · cases hstep
    next htask => exact h.advance careful htask hstep
  | fail i =>
    simp only [Step, System.step] at hstep
    split at hstep
    · cases hstep
    · split_ifs at hstep <;> cases hstep <;> exact h.finished careful
  | create i username role =>
    simp only [Step, System.step] at hstep
    split_ifs at hstep with hfree
    split at hstep <;> cases hstep
    · exact h
    · exact h.begin hfree fun _ _ he => by cases he
  | setup i username =>
    simp only [Step, System.step] at hstep
    split_ifs at hstep with hfree
    cases hstep
    exact h.begin hfree fun _ _ he => by cases he
  | change i c username =>
    simp only [Step, System.step] at hstep
    split_ifs at hstep with hfree
    split at hstep
    · cases hstep
      exact h
    · split_ifs at hstep <;> cases hstep <;> exact h.begin hfree fun _ _ he => by cases he
  | request sessionId =>
    cases hstep
    exact h
  | revoke sessionId =>
    cases hstep
    refine h.of_sessions rfl rfl fun x hx hvalid => ?_
    obtain ⟨r, -, -, rfl⟩ | ⟨hx, -⟩ := Rows.mem_update.mp hx
    · simp [Session.isValidAt, Session.revoke] at hvalid
    · exact ⟨hx, hvalid⟩
  | cleanup =>
    cases hstep
    exact h.of_sessions rfl rfl fun x hx hvalid => ⟨(List.mem_filter.mp hx).1, hvalid⟩
  | tick d =>
    cases hstep
    refine h.of_sessions rfl rfl fun x hx hvalid => ⟨hx, ?_⟩
    simp only [Session.isValidAt, Bool.and_eq_true, decide_eq_true_eq] at hvalid ⊢
    exact ⟨hvalid.1, lt_of_le_of_lt (Nat.le_add_right _ d) hvalid.2⟩

theorem follows_of_run {now : Instant} (run : Run Step (blank now) past s)
    (careful : ∀ u l, Took Step (blank now) past u l → Careful u l) : Follows s := by
  have start : Follows (blank now) := ⟨fun _ _ _ h => (by cases h), fun _ h => (by cases h)⟩
  exact run.guarded (P := fun _ => Follows) start
    (fun _ _ _ _ h careful hstep => h.step careful hstep) careful

theorem getValidSession_mem {now : Instant} {rows : List Session} {sessionId : String}
    {x : Session} (h : getValidSession now rows sessionId = some x) :
    x ∈ rows ∧ x.isValidAt now = true := by
  obtain ⟨hfind, hvalid⟩ := Option.filter_eq_some_iff.mp h
  exact ⟨List.mem_of_find?_eq_some hfind, hvalid⟩

/-- In a run of careful steps every request is granted at most the role that the account has at
that time, and none without an enabled account. -/
theorem privileges_follow_account (now : Instant) (s : System) (labels : List Label)
    (run : Run Step (blank now) labels s)
    (careful : ∀ u l, Took Step (blank now) labels u l → Careful u l) :
    ∀ past future sessionId username role,
      labels = past ++ (.request sessionId, some (.user (some (username, role)))) :: future →
      ∃ u, Run Step (blank now) past u ∧ Backed u.accounts username role := by
  rintro past future sessionId username role rfl
  obtain ⟨u, u', before, hstep, -⟩ := run.split_at
  have follows : Follows u :=
    follows_of_run before fun v l took => careful v l (took.append _)
  have careful_here : Careful u (.request sessionId, some (.user (some (username, role)))) :=
    careful u _ ⟨past, future, rfl, before⟩
  simp only [Step, System.step, Option.some.injEq, Prod.mk.injEq, Reply.user.injEq,
    Option.map_eq_some_iff] at hstep
  obtain ⟨-, x, hx, rfl, rfl⟩ := hstep
  obtain ⟨hmem, hvalid⟩ := getValidSession_mem hx
  refine ⟨u, before, (follows.sessions x hmem hvalid).resolve_right (careful_here x hx)⟩

namespace Sample

/-- `root` is set up and `amy` created as an administrator, who then logs in. -/
def amyIn : List Event :=
  [.setup 0 "root", .work 0 "", .work 0 "", .work 0 "", .work 0 "", .work 0 "s0",
    .create 0 "amy" .admin, .work 0 "", .login 0 "amy" true, .work 0 "s1"]

/-- The role change of `amy` has returned, and the session still acts as an administrator. A
login that was under way when the account was deleted leaves a session, too. -/
theorem demoted_admin_stays_admin :
    (∃ past s, Run Step (blank 0) past s ∧
      past.getLast? = some (.request "s1", some (.user (some ("amy", .admin)))) ∧
      (.work 0 "", some .done) ∈ past ∧
      findAccountByUsername s.accounts "amy" = some ⟨"amy", .viewer, true⟩) ∧
    ∃ past s, Run Step (blank 0) past s ∧
      past.getLast? = some (.request "s2", some (.user (some ("amy", .admin)))) ∧
      findAccountByUsername s.accounts "amy" = none := by
  refine ⟨?_, ?_⟩
  · exact exists_run (blank 0)
      (amyIn ++ [.change 0 (.role .viewer) "amy", .work 0 "", .work 0 "", .request "s1"])
      (fun past s => past.getLast? = some (.request "s1", some (.user (some ("amy", .admin)))) ∧
        (.work 0 "", some .done) ∈ past ∧
        findAccountByUsername s.accounts "amy" = some ⟨"amy", .viewer, true⟩)
      (by decide +kernel)
  · exact exists_run (blank 0)
      (amyIn ++ [.login 1 "amy" true, .change 0 .delete "amy", .work 0 "", .work 0 "", .work 0 "",
        .work 1 "s2", .request "s2"])
      (fun past s => past.getLast? = some (.request "s2", some (.user (some ("amy", .admin)))) ∧
        findAccountByUsername s.accounts "amy" = none)
      (by decide +kernel)

/-- `amy` is disabled and enabled again, and logs in once more. -/
def amyBack : List Event :=
  amyIn ++ [.change 0 (.enabled false) "amy", .work 0 "", .work 0 "", .work 0 "", .request "s1",
    .change 0 (.enabled true) "amy", .work 0 "", .login 0 "amy" true, .work 0 "s2",
    .request "s2"]

/-- Where the only request is in place 0, a step is careful if it is no failure, no change of a
role, and no request with a session while the sessions are to be revoked. -/
def calm (s : System) : Event → Bool
  | .work _ _ => match s.tasks 0 with
    | some (.writing (.role _) _) => false
    | _ => true
  | .fail _ => false
  | .request _ => match s.tasks 0 with
    | some (.revoking ..) => false
    | _ => true
  | _ => true

theorem careful_of_calm {u : System} {l : Label} (free : ∀ j, j ≠ 0 → u.tasks j = none)
    (h : calm u l.1 = true) : Careful u l := by
  have at_zero : ∀ j task, u.tasks j = some task → j = 0 := by
    intro j task hj
    by_contra hne
    rw [free j hne] at hj
    cases hj
  obtain ⟨e, out⟩ := l
  cases e with
  | work i fresh =>
    intro c username hi
    obtain rfl := at_zero i _ hi
    refine ⟨fun j role hj => ?_, fun hrevokes x _ _ _ => ?_⟩
    · obtain rfl := at_zero j _ hj
      rw [hi] at hj
      cases hj
    · cases c with
      | role r => simp [calm, hi] at h
      | enabled b => simpa [Change.allows, Change.revokes] using hrevokes
      | delete => cases hrevokes
  | fail i => cases h
  | request sessionId =>
    rintro x - ⟨i, c, hi⟩
    obtain rfl := at_zero i _ hi
    simp [calm, hi] at h
  | _ => trivial

theorem privileges_follow_account_back : ∃ past s u,
    Run Step (blank 0)
      (past ++ [(.request "s2", some (.user (some ("amy", .admin))))]) s ∧
    (.request "s1", some (.user none)) ∈ past ∧ Run Step (blank 0) past u ∧
    Backed u.accounts "amy" .admin := by
  obtain ⟨labels, s, htrace, hlast, hfirst, hplace⟩ := exists_trace step (blank 0) amyBack
    (fun labels _ =>
      labels = labels.dropLast ++ [(.request "s2", some (.user (some ("amy", .admin))))] ∧
      (.request "s1", some (.user none)) ∈ labels.dropLast ∧
      ∀ l ∈ labels, Label.place l = some 0 ∨ Label.place l = none) (by decide +kernel)
  have run : Run Step (blank 0) labels s := run_of_trace htrace
  have calm_throughout : ∀ k < amyBack.length, ∀ e, amyBack[k]? = some e →
      ((trace step (blank 0) (amyBack.take k)).map Prod.snd).all (calm · e) = true := by
    decide +kernel
  have careful : ∀ u l, Took Step (blank 0) labels u l → Careful u l := by
    intro u l took
    obtain ⟨k, hk, hevent, hstate⟩ := exists_take_of_took htrace took
    have hcalm := calm_throughout k hk l.1 hevent
    rw [hstate] at hcalm
    obtain ⟨past, future, rfl, before⟩ := took
    refine careful_of_calm (fun j hj => tasks_of_run (fun l' hl' he => ?_) before) hcalm
    obtain h | h := hplace l' (List.mem_append_left _ hl')
    · exact hj (Option.some.inj (he.symm.trans h))
    · rw [h] at he
      cases he
  obtain ⟨u, before, backed⟩ :=
    privileges_follow_account 0 s labels run careful labels.dropLast [] "s2" "amy" .admin hlast
  exact ⟨labels.dropLast, s, u, hlast ▸ run, hfirst, before, backed⟩

end Sample

end System

end Magnetite.Portal
