import Magnetite.Portal.Steps
import Mathlib.Data.List.Nodup

/-!
# The last administrator

The guard of an account change counts the enabled administrators in one call and writes in a later
one. As long as at most one restricting change at a time is between the two, an administrator
stays; the unique index keeps user names apart in any case, and the lock of the setup with the
account that then exists keeps the setup from succeeding again.
-/
namespace Magnetite.Portal
open Lib

/-! ## Account tables -/

/-- An enabled administrator besides this user. -/
def OtherAdmin (rows : List Account) (username : String) : Prop :=
  ∃ a ∈ rows, a.IsEnabledAdmin = true ∧ a.username ≠ username

theorem Change.usernames_apply {c : Change} {username : String} {rows : List Account} :
    (usernames (c.apply username rows)).Sublist (usernames rows) := by
  cases c with
  | role r =>
    simp only [Change.apply, usernames]
    rw [Rows.map_update (by simp)]
  | enabled b =>
    simp only [Change.apply, usernames]
    rw [Rows.map_update (by simp)]
  | delete => exact List.filter_sublist.map _

/-- A change that does not restrict keeps the administrators, and all accounts. -/
theorem Change.mem_apply_of_grant {c : Change} (hc : c.restricts = false) {username : String}
    {rows : List Account} {a : Account} (h : a ∈ rows) :
    ∃ b ∈ c.apply username rows, b.username = a.username ∧
      (a.IsEnabledAdmin = true → b.IsEnabledAdmin = true) := by
  by_cases hname : a.username = username
  · cases c with
    | role r =>
      refine ⟨{ a with role := r }, Rows.mem_update.mpr (.inl ⟨a, h, hname, rfl⟩), rfl, ?_⟩
      simp only [Change.restricts, bne_eq_false_iff_eq] at hc
      simp +contextual [Account.IsEnabledAdmin, hc]
    | enabled b =>
      refine ⟨{ a with enabled := b }, Rows.mem_update.mpr (.inl ⟨a, h, hname, rfl⟩), rfl, ?_⟩
      simp only [Change.restricts, Bool.not_eq_false'] at hc
      simp [Account.IsEnabledAdmin, hc]
    | delete => cases hc
  · exact ⟨a, Change.mem_apply_of_ne h hname, rfl, id⟩

/-- Of two enabled administrators one is not this user. -/
theorem otherAdmin_of_count {rows : List Account} (names : (usernames rows).Nodup)
    (h : ¬ countEnabledAdmins rows ≤ 1) (username : String) : OtherAdmin rows username := by
  rw [countEnabledAdmins, List.countP_eq_length_filter] at h
  have hnames : ((rows.filter Account.IsEnabledAdmin).map (·.username)).Nodup :=
    names.sublist (List.filter_sublist.map _)
  match hrows : rows.filter Account.IsEnabledAdmin with
  | [] | [_] => simp [hrows] at h
  | a :: b :: rest =>
    rw [hrows] at hnames
    have hne : a.username ≠ b.username := by
      intro he
      simp [he] at hnames
    have hmem : ∀ x ∈ a :: b :: rest, x ∈ rows ∧ x.IsEnabledAdmin = true := by
      intro x hx
      rw [← hrows] at hx
      exact List.mem_filter.mp hx
    by_cases ha : a.username = username
    · exact ⟨b, (hmem b (by simp)).1, (hmem b (by simp)).2, fun hb => hne (ha.trans hb.symm)⟩
    · exact ⟨a, (hmem a (by simp)).1, (hmem a (by simp)).2, ha⟩

theorem OtherAdmin.append {rows : List Account} {username : String}
    (h : OtherAdmin rows username) (new : List Account) : OtherAdmin (rows ++ new) username := by
  obtain ⟨a, ha, hadmin, hne⟩ := h
  exact ⟨a, List.mem_append_left _ ha, hadmin, hne⟩

theorem usernames_insert_nodup {rows : List Account} (names : (usernames rows).Nodup)
    {username : String} (hfree : username ∉ usernames rows) (role : Role) :
    (usernames (rows ++ [⟨username, role, true⟩])).Nodup := by
  simp only [usernames, List.map_append, List.map_cons, List.map_nil]
  exact names.append (List.nodup_singleton _) (by simpa [List.disjoint_singleton] using hfree)

/-- The administrator that exists is not the user whose account is no administrator's. -/
theorem otherAdmin_of_found {rows : List Account} (names : (usernames rows).Nodup)
    {username : String} {a : Account} (h : findAccountByUsername rows username = some a)
    (ha : a.IsEnabledAdmin = false) (hadmin : ∃ b ∈ rows, b.IsEnabledAdmin = true) :
    OtherAdmin rows username := by
  obtain ⟨b, hb, hbadmin⟩ := hadmin
  obtain ⟨hmem, rfl⟩ := mem_of_find h
  refine ⟨b, hb, hbadmin, fun he => ?_⟩
  obtain rfl : b = a := List.inj_on_of_nodup_map names hb hmem he
  rw [hbadmin] at ha
  cases ha

namespace System

variable {s t : System} {past : List Label}

/-! ## The invariant -/

def Label.isSetUp (l : Label) : Bool := l.2 == some .setUp

/-- How often the setup has succeeded. -/
def setUps (past : List Label) : Nat := past.countP Label.isSetUp

/-- A change is behind its check and before its write. -/
def Restricting (s : System) (i : Nat) (username : String) : Prop :=
  ∃ c, s.tasks i = some (.writing c username) ∧ c.restricts = true

/-- At most one restricting change is behind its check and before its write. -/
def OneAtATime (s : System) : Prop :=
  ∀ i j u v, Restricting s i u → Restricting s j v → i = j

/-- The setup has found no accounts and holds the lock. -/
def Task.counted : Task → Bool
  | .setupFinding _ | .setupInserting _ => true
  | _ => false

/-- What a waiting restricting write relies on: another administrator, or, before the setup, that
its account is still there. -/
def Relies (past : List Label) (rows : List Account) (username : String) : Prop :=
  OtherAdmin rows username ∨ (username ∈ usernames rows ∧ setUps past = 0)

structure Guarded (past : List Label) (s : System) : Prop where
  names : (usernames s.accounts).Nodup
  lock : ∀ i task, s.tasks i = some task → holdsLock task = true → s.setupLock = some i
  pending : ∀ i username, Restricting s i username → Relies past s.accounts username
  admin : setUps past ≠ 0 → ∃ a ∈ s.accounts, a.IsEnabledAdmin = true
  uncounted : setUps past ≠ 0 → ∀ i task, s.tasks i = some task → Task.counted task = false
  once : setUps past ≤ 1

theorem setUps_append (past : List Label) (l : Label) :
    setUps (past ++ [l]) = setUps past + if l.isSetUp then 1 else 0 := by
  simp [setUps, List.countP_append, List.countP_singleton]

theorem setUps_append_of_ne {l : Label} (h : l.2 ≠ some .setUp) :
    setUps (past ++ [l]) = setUps past := by
  rw [setUps_append, if_neg (by simpa [Label.isSetUp] using h), Nat.add_zero]

/-- A step that leaves the accounts alone. -/
theorem Guarded.of_accounts_eq (h : Guarded past s) {l : Label} (hl : l.2 ≠ some .setUp)
    (haccounts : t.accounts = s.accounts)
    (hlock : ∀ i task, t.tasks i = some task → holdsLock task = true → t.setupLock = some i)
    (hpending : ∀ i username, Restricting t i username → Relies past s.accounts username)
    (hcounted : setUps past ≠ 0 → ∀ i task, t.tasks i = some task → Task.counted task = false) :
    Guarded (past ++ [l]) t := by
  have hset : setUps (past ++ [l]) = setUps past := setUps_append_of_ne hl
  refine ⟨haccounts ▸ h.names, hlock, fun i u hr => ?_, ?_, ?_, ?_⟩
  · rw [haccounts, Relies, hset]
    exact hpending i u hr
  · rw [hset, haccounts]
    exact h.admin
  · rw [hset]
    exact hcounted
  · rw [hset]
    exact h.once

/-- A step that ends a request or none, and leaves accounts and lock alone. -/
theorem Guarded.quiet (h : Guarded past s) {l : Label} (hl : l.2 ≠ some .setUp)
    (haccounts : t.accounts = s.accounts) (hlock : t.setupLock = s.setupLock)
    (htasks : ∀ i task, t.tasks i = some task → s.tasks i = some task) :
    Guarded (past ++ [l]) t := by
  refine h.of_accounts_eq hl haccounts (fun i task ht hold => ?_) (fun i u hr => ?_)
    (fun hset i task ht => h.uncounted hset i task (htasks i task ht))
  · rw [hlock]
    exact h.lock i task (htasks i task ht) hold
  · obtain ⟨c, htask, hc⟩ := hr
    exact h.pending i u ⟨c, htasks i _ htask, hc⟩

/-- A request that holds the lock gives it back and ends. -/
theorem Guarded.unlock (h : Guarded past s) {l : Label} (hl : l.2 ≠ some .setUp) {i : Nat}
    {task : Task} (htask : s.tasks i = some task) (hold : holdsLock task = true) :
    Guarded (past ++ [l]) (s.release.finish i) := by
  refine h.of_accounts_eq hl rfl (fun j task' ht hold' => ?_) (fun j u hr => ?_)
    (fun hset j task' ht => h.uncounted hset j task' (finish_tasks (s := s) ht).2)
  · obtain ⟨hne, ht⟩ := finish_tasks (s := s) ht
    have hj := h.lock j task' ht hold'
    rw [h.lock i task htask hold] at hj
    exact absurd (Option.some.inj hj).symm hne
  · obtain ⟨c, ht, hc⟩ := hr
    exact h.pending j u ⟨c, (finish_tasks (s := s) ht).2, hc⟩

/-- A request goes on to its next call. -/
theorem Guarded.waits (h : Guarded past s) {l : Label} (hl : l.2 ≠ some .setUp) {i : Nat}
    {new : Task} (haccounts : t.accounts = s.accounts) (htasks : t.tasks = (s.wait i new).tasks)
    (hlock : ∀ j task, t.tasks j = some task → holdsLock task = true → t.setupLock = some j)
    (hnew : ∀ c username, new = .writing c username → c.restricts = true →
      Relies past s.accounts username)
    (hcounted : setUps past ≠ 0 → Task.counted new = false) : Guarded (past ++ [l]) t := by
  refine h.of_accounts_eq hl haccounts hlock (fun j u hr => ?_) (fun hset j task ht => ?_)
  · obtain ⟨c, ht, hc⟩ := hr
    rw [htasks] at ht
    obtain ⟨-, hold⟩ | ⟨rfl, hnew'⟩ := wait_tasks ht
    · exact h.pending j u ⟨c, hold, hc⟩
    · exact hnew c u hnew'.symm hc
  · rw [htasks] at ht
    obtain ⟨-, hold⟩ | ⟨rfl, rfl⟩ := wait_tasks ht
    · exact h.uncounted hset j task hold
    · exact hcounted hset

/-- The lock's part when the new call is none of the locked ones. -/
theorem Guarded.lock_wait (h : Guarded past s) {i : Nat} {new : Task}
    (hnew : holdsLock new = false) (j : Nat) (task : Task)
    (ht : (s.wait i new).tasks j = some task) (hold : holdsLock task = true) :
    s.setupLock = some j := by
  obtain ⟨-, ht⟩ | ⟨rfl, rfl⟩ := wait_tasks ht
  · exact h.lock j task ht hold
  · rw [hnew] at hold
    cases hold

/-- The lock's part when a request that holds it goes on. -/
theorem Guarded.lock_same (h : Guarded past s) {i : Nat} {old new : Task}
    (hold : s.tasks i = some old) (holds : holdsLock old = true) (j : Nat) (task : Task)
    (ht : (s.wait i new).tasks j = some task) (htask : holdsLock task = true) :
    s.setupLock = some j := by
  obtain ⟨-, ht⟩ | ⟨rfl, -⟩ := wait_tasks ht
  · exact h.lock j task ht htask
  · exact h.lock j old hold holds

/-- `create_account` has inserted an account. -/
theorem Guarded.insert (h : Guarded past s) {l : Label} (hl : l.2 ≠ some .setUp) {i : Nat}
    {username : String} {role : Role} (hfree : username ∉ usernames s.accounts) :
    Guarded (past ++ [l])
      (finish { s with accounts := s.accounts ++ [⟨username, role, true⟩] } i) := by
  have hset : setUps (past ++ [l]) = setUps past := setUps_append_of_ne hl
  refine ⟨usernames_insert_nodup h.names hfree role, fun j task ht => ?_, fun j u hr => ?_,
    fun hne => ?_, fun hne j task ht => ?_, hset ▸ h.once⟩
  · exact h.lock j task (finish_tasks (s := s) ht).2
  · obtain ⟨c, ht, hc⟩ := hr
    obtain hother | ⟨hu, hzero⟩ := h.pending j u ⟨c, (finish_tasks (s := s) ht).2, hc⟩
    · exact .inl (hother.append _)
    · refine .inr ⟨?_, hset ▸ hzero⟩
      simp only [finish, usernames, List.map_append]
      exact List.mem_append_left _ hu
  · obtain ⟨a, ha, hadmin⟩ := h.admin (hset ▸ hne)
    exact ⟨a, List.mem_append_left _ ha, hadmin⟩
  · exact h.uncounted (hset ▸ hne) j task (finish_tasks (s := s) ht).2

/-- `create_first_admin` has inserted its account: the one time this happens. -/
theorem Guarded.setUp (h : Guarded past s) {e : Event} {i : Nat} {username : String}
    (htask : s.tasks i = some (.setupInserting username))
    (hfree : username ∉ usernames s.accounts) :
    Guarded (past ++ [(e, some .setUp)])
      (wait (release { s with accounts := s.accounts ++ [⟨username, .admin, true⟩] }) i
        (.opening username .admin)) := by
  have hzero : setUps past = 0 := by
    by_contra hne
    cases h.uncounted hne i _ htask
  have hset : setUps (past ++ [(e, some .setUp)]) = 1 := by
    rw [setUps_append, hzero]
    rfl
  have hi : s.setupLock = some i := h.lock i _ htask rfl
  -- any other request at a locked call would hold the lock of request `i`
  have alone : ∀ j task, (wait s i (.opening username .admin)).tasks j = some task →
      holdsLock task = false := by
    intro j task ht
    obtain ⟨hne, ht⟩ | ⟨-, rfl⟩ := wait_tasks ht
    · by_contra hold
      have hj := h.lock j task ht (by simpa using hold)
      rw [hi] at hj
      exact hne (Option.some.inj hj).symm
    · rfl
  refine ⟨usernames_insert_nodup h.names hfree .admin, fun j task ht hold => ?_,
    fun j u hr => .inl ?_, fun _ => ⟨⟨username, .admin, true⟩, by simp [wait, release], rfl⟩,
    fun _ j task ht => ?_, hset.le⟩
  · rw [alone j task ht] at hold
    cases hold
  · obtain ⟨c, ht, hc⟩ := hr
    obtain ⟨-, ht⟩ | ⟨-, he⟩ := wait_tasks (s := s) ht
    · obtain hother | ⟨hu, -⟩ := h.pending j u ⟨c, ht, hc⟩
      · exact hother.append _
      · refine ⟨⟨username, .admin, true⟩, by simp [wait, release], rfl, ?_⟩
        rintro rfl
        exact hfree hu
    · cases he
  · have hfalse := alone j task ht
    cases task <;> first | rfl | cases hfalse

/-- An account change has been written. -/
theorem Guarded.write (h : Guarded past s) (one : OneAtATime s) {l : Label}
    (hl : l.2 ≠ some .setUp) {i : Nat} {c : Change} {username : String}
    (htask : s.tasks i = some (.writing c username))
    (haccounts : t.accounts = c.apply username s.accounts) (hlock : t.setupLock = s.setupLock)
    (htasks : ∀ j task, t.tasks j = some task →
      (j ≠ i ∧ s.tasks j = some task) ∨ task = .revoking c username) :
    Guarded (past ++ [l]) t := by
  have hset : setUps (past ++ [l]) = setUps past := setUps_append_of_ne hl
  have others : ∀ j u, Restricting t j u → j ≠ i ∧ Restricting s j u := by
    rintro j u ⟨c', ht, hc'⟩
    obtain ⟨hne, ht⟩ | he := htasks j _ ht
    · exact ⟨hne, c', ht, hc'⟩
    · cases he
  refine ⟨?_, fun j task ht hold => ?_, fun j u hr => ?_, fun hne => ?_, fun hne j task ht => ?_,
    hset ▸ h.once⟩
  · rw [haccounts]
    exact h.names.sublist Change.usernames_apply
  · obtain ⟨-, ht⟩ | rfl := htasks j task ht
    · exact hlock ▸ h.lock j task ht hold
    · cases hold
  · obtain ⟨hne, hr⟩ := others j u hr
    cases hc : c.restricts with
    | true => exact absurd (one j i u username hr ⟨c, htask, hc⟩) hne
    | false =>
      rw [haccounts]
      obtain ⟨a, ha, hadmin, hau⟩ | ⟨hu, hzero⟩ := h.pending j u hr
      · obtain ⟨b, hb, hname, hkeep⟩ := Change.mem_apply_of_grant hc ha
        exact .inl ⟨b, hb, hkeep hadmin, hname ▸ hau⟩
      · obtain ⟨a, ha, rfl⟩ := List.mem_map.mp hu
        obtain ⟨b, hb, hname, -⟩ := Change.mem_apply_of_grant hc ha
        exact .inr ⟨List.mem_map.mpr ⟨b, hb, hname⟩, hset ▸ hzero⟩
  · rw [haccounts]
    cases hc : c.restricts with
    | true =>
      obtain ⟨a, ha, hadmin, hau⟩ | ⟨-, hzero⟩ := h.pending i username ⟨c, htask, hc⟩
      · exact ⟨a, Change.mem_apply_of_ne ha hau, hadmin⟩
      · exact absurd hzero (hset ▸ hne)
    | false =>
      obtain ⟨a, ha, hadmin⟩ := h.admin (hset ▸ hne)
      obtain ⟨b, hb, -, hkeep⟩ := Change.mem_apply_of_grant hc ha
      exact ⟨b, hb, hkeep hadmin⟩
  · obtain ⟨-, ht⟩ | rfl := htasks j task ht
    · exact h.uncounted (hset ▸ hne) j task ht
    · rfl

/-- The next call of a request keeps the invariant. -/
theorem Guarded.advance (h : Guarded past s) (one : OneAtATime s) {i : Nat} {fresh : String}
    {task : Task} (htask : s.tasks i = some task) {e : Event} {out : Option Reply}
    (hstep : s.advance i fresh task = some (t, out)) : Guarded (past ++ [(e, out)]) t := by
  cases task with
  | counting c username =>
    simp only [System.advance] at hstep
    split_ifs at hstep with hcount
    · cases hstep
      exact h.quiet (by simp) rfl rfl fun _ _ ht => (finish_tasks ht).2
    · cases hstep
      refine h.waits (by simp) rfl rfl (h.lock_wait rfl) (fun c' u he _ => ?_) fun _ => rfl
      exact .inl (otherAdmin_of_count h.names hcount u)
  | writing c username =>
    simp only [System.advance] at hstep
    split_ifs at hstep with hrevokes
    · cases hstep
      exact h.write one (by simp) htask rfl rfl fun j task ht =>
        (wait_tasks (s := s) ht).imp id And.right
    · cases hstep
      exact h.write one (by simp) htask rfl rfl fun j task ht => .inl (finish_tasks (s := s) ht)
  | revoking c username =>
    cases hstep
    exact h.quiet (by simp) rfl rfl fun _ _ ht => (finish_tasks ht).2
  | inserting username role =>
    simp only [System.advance] at hstep
    split at hstep
    · cases hstep
      exact h.quiet (by simp) rfl rfl fun _ _ ht => (finish_tasks ht).2
    next u hinsert =>
      obtain ⟨hfree, rfl⟩ := insertAccount_some hinsert
      cases hstep
      exact h.insert (by simp) hfree
  | setupWaiting username =>
    simp only [System.advance] at hstep
    split at hstep
    · cases hstep
    next hfree =>
      cases hstep
      refine h.waits (by simp) rfl rfl (fun j task ht hold => ?_) (fun _ _ he => by cases he)
        fun _ => rfl
      obtain ⟨-, ht⟩ | ⟨rfl, -⟩ := wait_tasks (s := s) ht
      · have hj := h.lock j task ht hold
        rw [hfree] at hj
        cases hj
      · rfl
  | setupCounting username =>
    simp only [System.advance] at hstep
    split_ifs at hstep with hcount
    · cases hstep
      exact h.unlock (by simp) htask rfl
    · cases hstep
      refine h.waits (by simp) rfl rfl (h.lock_same htask rfl) (fun _ _ he => by cases he)
        fun hne => ?_
      -- after the setup there is an account to be counted
      obtain ⟨a, ha, -⟩ := h.admin hne
      exact absurd (List.length_pos_of_mem ha) hcount
  | setupFinding username =>
    simp only [System.advance] at hstep
    split at hstep
    · cases hstep
      exact h.unlock (by simp) htask rfl
    · cases hstep
      refine h.waits (by simp) rfl rfl (h.lock_same htask rfl) (fun _ _ he => by cases he)
        fun hne => ?_
      cases h.uncounted hne i _ htask
  | setupInserting username =>
    simp only [System.advance] at hstep
    split at hstep
    · cases hstep
      exact h.unlock (by simp) htask rfl
    next u hinsert =>
      obtain ⟨hfree, rfl⟩ := insertAccount_some hinsert
      cases hstep
      exact h.setUp htask hfree
  | opening username role =>
    cases hstep
    exact h.quiet (by simp) rfl rfl fun _ _ ht => (finish_tasks ht).2

theorem Guarded.step (h : Guarded past s) (one : OneAtATime s) {l : Label} (hstep : Step s l t) :
    Guarded (past ++ [l]) t := by
  obtain ⟨e, out⟩ := l
  cases e with
  | create i username role =>
    simp only [Step, System.step] at hstep
    split_ifs at hstep
    split at hstep
    · cases hstep
      exact h.quiet (by simp) rfl rfl fun _ _ ht => ht
    · cases hstep
      exact h.waits (by simp) rfl rfl (h.lock_wait rfl) (fun _ _ he => by cases he) fun _ => rfl
  | setup i username =>
    simp only [Step, System.step] at hstep
    split_ifs at hstep
    cases hstep
    exact h.waits (by simp) rfl rfl (h.lock_wait rfl) (fun _ _ he => by cases he) fun _ => rfl
  | change i c username =>
    simp only [Step, System.step] at hstep
    split_ifs at hstep
    split at hstep
    · cases hstep
      exact h.quiet (by simp) rfl rfl fun _ _ ht => ht
    next account hfound =>
      split_ifs at hstep with hcounts
      · cases hstep
        exact h.waits (by simp) rfl rfl (h.lock_wait rfl) (fun _ _ he => by cases he) fun _ => rfl
      · cases hstep
        refine h.waits (by simp) rfl rfl (h.lock_wait rfl) (fun c' u he hc => ?_) fun _ => rfl
        obtain ⟨rfl, rfl⟩ : c = c' ∧ username = u := by simpa using he
        have hplain : account.IsEnabledAdmin = false := by simpa [Change.counts, hc] using hcounts
        by_cases hzero : setUps past = 0
        · obtain ⟨hmem, rfl⟩ := mem_of_find hfound
          exact .inr ⟨List.mem_map_of_mem hmem, hzero⟩
        · exact .inl (otherAdmin_of_found h.names hfound hplain (h.admin hzero))
  | login i username accepted =>
    simp only [Step, System.step] at hstep
    split_ifs at hstep
    split at hstep
    · cases hstep
      exact h.quiet (by simp) rfl rfl fun _ _ ht => ht
    next account hfound =>
      split_ifs at hstep with hok
      · cases hstep
        exact h.waits (by simp) rfl rfl (h.lock_wait rfl) (fun _ _ he => by cases he) fun _ => rfl
      · cases hstep
        exact h.quiet (by simp) rfl rfl fun _ _ ht => ht
  | work i fresh =>
    simp only [Step, System.step] at hstep
    split at hstep
    · cases hstep
    next task htask => exact h.advance one htask hstep
  | fail i =>
    simp only [Step, System.step] at hstep
    split at hstep
    · cases hstep
    next task htask =>
      split_ifs at hstep with hold
      · cases hstep
        exact h.unlock (by simp) htask hold
      · cases hstep
        exact h.quiet (by simp) rfl rfl fun _ _ ht => (finish_tasks ht).2
  | _ =>
    cases hstep
    exact h.quiet (by simp) rfl rfl fun _ _ ht => ht

theorem guarded_blank (now : Instant) : Guarded [] (blank now) where
  names := List.nodup_nil
  lock i task h := by cases h
  pending i username h := by obtain ⟨c, h, -⟩ := h; cases h
  admin h := absurd rfl h
  uncounted h := absurd rfl h
  once := Nat.zero_le 1

/-- Without overlapping restricting changes the invariant holds throughout a run. -/
theorem guarded_of_run {now : Instant} (run : Run Step (blank now) past s)
    (one : ∀ u l, Took Step (blank now) past u l → OneAtATime u) : Guarded past s :=
  run.guarded (guarded_blank now) (fun _ _ _ _ h one hstep => h.step one hstep) one

/-! ## Names -/

/-- The index alone keeps user names apart. -/
theorem usernames_nodup_of_step {l : Label} (h : (usernames s.accounts).Nodup)
    (hstep : Step s l t) : (usernames t.accounts).Nodup := by
  obtain heq | ⟨c, username, heq⟩ | ⟨username, role, hfree, heq⟩ :=
    (moves_of_step hstep).accounts
  · rwa [heq]
  · rw [heq]
    exact h.sublist Change.usernames_apply
  · rw [heq]
    exact usernames_insert_nodup h hfree role

theorem usernames_nodup_of_run {now : Instant} (run : Run Step (blank now) past s) :
    (usernames s.accounts).Nodup :=
  run.invariant (fun s => (usernames s.accounts).Nodup)
    (fun _ _ _ h hstep => usernames_nodup_of_step h hstep) List.nodup_nil

/-- User names stay apart in every run. If restricting changes do not overlap between check and
write, the setup succeeds at most once, and from then on there is an enabled administrator. -/
theorem last_admin_survives (now : Instant) (s : System) (past : List Label)
    (run : Run Step (blank now) past s) :
    (usernames s.accounts).Nodup ∧
      ((∀ u l, Took Step (blank now) past u l → OneAtATime u) →
        setUps past ≤ 1 ∧ (setUps past ≠ 0 → ∃ a ∈ s.accounts, a.IsEnabledAdmin = true)) :=
  ⟨usernames_nodup_of_run run, fun one =>
    have h := guarded_of_run run one
    ⟨h.once, h.admin⟩⟩

/-! ## One request after the other -/

/-- Requests that are served one after the other, in one place, do not overlap. -/
theorem oneAtATime_of_place {now : Instant} {i : Nat}
    (place : ∀ l ∈ past, l.place = some i) {u : System} {l : Label}
    (took : Took Step (blank now) past u l) : OneAtATime u := by
  obtain ⟨before, after, rfl, run⟩ := took
  have free : ∀ j, j ≠ i → u.tasks j = none := fun j hj =>
    tasks_of_run (fun l hl he => hj (Option.some.inj
      (he.symm.trans (place l (List.mem_append_left _ hl))))) run
  have at_i : ∀ j v, Restricting u j v → j = i := by
    rintro j v ⟨c, hc, -⟩
    by_contra hj
    rw [free j hj] at hc
    cases hc
  intro j k v w hj hk
  rw [at_i j v hj, at_i k w hk]

namespace Sample

/-- The setup of `root`, and `bob` as a second administrator. -/
def twoAdmins : List Event :=
  [.setup 0 "root", .work 0 "", .work 0 "", .work 0 "", .work 0 "", .work 0 "s0",
    .create 1 "bob" .admin, .work 1 ""]

/-- Both administrators are deleted at once: each deletion counts before the other one writes. -/
def bothDeleted : List Event :=
  twoAdmins ++ [.change 1 .delete "root", .change 2 .delete "bob", .work 1 "", .work 2 "",
    .work 1 "", .work 2 "", .work 1 "", .work 2 ""]

/-- The accounts are gone, and another setup succeeds. -/
theorem both_admins_deleted :
    (∃ past s, Run Step (blank 0) past s ∧ setUps past = 1 ∧ s.accounts = []) ∧
      ∃ past s, Run Step (blank 0) past s ∧ setUps past = 2 := by
  refine ⟨?_, ?_⟩
  · exact exists_run (blank 0) bothDeleted (fun past s => setUps past = 1 ∧ s.accounts = [])
      (by decide +kernel)
  · exact exists_run (blank 0)
      (bothDeleted ++ [.setup 1 "eve", .work 1 "", .work 1 "", .work 1 "", .work 1 ""])
      (fun past _ => setUps past = 2) (by decide +kernel)

/-- `root` is deleted after `bob` has become an administrator. -/
def handedOver : List Event :=
  [.setup 0 "root", .work 0 "", .work 0 "", .work 0 "", .work 0 "", .work 0 "s0",
    .create 0 "bob" .admin, .work 0 "", .change 0 .delete "root", .work 0 "", .work 0 "",
    .work 0 ""]

theorem last_admin_survives_handover : ∃ past s, Run Step (blank 0) past s ∧
    s.accounts = [⟨"bob", .admin, true⟩] ∧ (usernames s.accounts).Nodup ∧ setUps past ≤ 1 ∧
    ∃ a ∈ s.accounts, a.IsEnabledAdmin = true := by
  obtain ⟨past, s, run, haccounts, hset, hplace⟩ := exists_run (blank 0) handedOver
    (fun past s => s.accounts = [⟨"bob", .admin, true⟩] ∧ setUps past = 1 ∧
      ∀ l ∈ past, l.place = some 0) (by decide +kernel)
  obtain ⟨names, holds⟩ := last_admin_survives 0 s past run
  obtain ⟨once, admin⟩ := holds fun u l took => oneAtATime_of_place hplace took
  exact ⟨past, s, run, haccounts, names, once, admin (by rw [hset]; decide)⟩

end Sample

end System

end Magnetite.Portal
