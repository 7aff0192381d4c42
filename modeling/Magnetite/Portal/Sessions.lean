import Magnetite.Portal.Privileges

/-!
# Where sessions come from and when they end

Whatever requests are under way at the same time, a session that a request is granted with was
opened for a verified user less than a day ago and has not been revoked since.
-/
namespace Magnetite.Portal.System

open Lib

variable {s t u : System} {l : Label} {past future : List Label} {x : Session} {now : Instant}
  {i : Nat} {id username : String} {role : Role}

/-- A step that does not end the session: no logout, and no revocation behind a change of the
account. -/
def Spares (id username : String) (s : System) (l : Label) (t : System) : Prop :=
  Step s l t ∧ l.1 ≠ .revoke id ∧
    ∀ i fresh c, l.1 = .work i fresh → s.tasks i ≠ some (.revoking c username)

/-- The step verifies the user, or sets up the first administrator. -/
def Verifies (i : Nat) (username : String) (role : Role) (s : System) (l : Label) : Prop :=
  (l = (.login i username true, none) ∧ ∃ a, findAccountByUsername s.accounts username = some a ∧
    a.enabled = true ∧ a.role = role) ∨
  (role = .admin ∧ s.tasks i = some (.setupInserting username) ∧
    ∃ fresh, l = (.work i fresh, some .setUp))

/-- A session that is not revoked is new, or it was there and the step spares it. -/
theorem sessions_of_step (hstep : Step s l t) (hx : x ∈ t.sessions) (hlive : x.revokedAt = none) :
    (∃ i, l.1 = .work i x.sessionId ∧ s.tasks i = some (.opening x.subject x.role) ∧
      x.expiresAt = s.now + sessionTtl) ∨
    (x ∈ s.sessions ∧ Spares x.sessionId x.subject s l t) := by
  obtain ⟨e, out⟩ := l
  cases e with
  | work i fresh =>
    have hadvance := hstep
    simp only [Step, System.step] at hadvance
    split at hadvance
    · cases hadvance
    next task htask =>
      cases task <;> grind [System.advance, System.finish, System.wait, System.release,
        System.insertAccount, Spares, Rows.mem_update, revokeSessionsForSubject, Session.revoke]
  | _ => grind [Step, System.step, System.finish, System.wait, System.release, Spares,
      Rows.mem_update, revokeSession, Session.revoke, cleanupExpiredSessions]

theorem opening_of_step (hstep : Step s l t) (h : t.tasks i = some (.opening username role)) :
    s.tasks i = some (.opening username role) ∨ Verifies i username role s l := by
  by_cases hplace : l.place = some i
  case neg => exact .inl ((moves_of_step hstep).tasks_eq hplace ▸ h)
  have hself : ∀ f task, t.tasks = Function.update f i task →
      task = some (.opening username role) := fun f task hf => by rw [← h, hf, Function.update_self]
  obtain ⟨e, out⟩ := l
  cases e with
  | work j fresh =>
    obtain rfl : j = i := Option.some.inj hplace
    simp only [Step, System.step] at hstep
    split at hstep
    · cases hstep
    next task htask =>
      cases task <;> grind [System.advance, System.finish, System.wait, System.release,
        System.insertAccount, Verifies]
  | _ => grind [Label.place, Step, System.step, System.finish, System.wait, System.release,
      Verifies, → mem_of_find]

theorem verified_of_run (run : Run Step (blank now) past u)
    (h : u.tasks i = some (.opening username role)) :
    ∃ v l, Took Step (blank now) past v l ∧ Verifies i username role v l := by
  refine Run.induction_last (P := fun past u => u.tasks i = some (.opening username role) →
    ∃ v l, Took Step (blank now) past v l ∧ Verifies i username role v l)
    (fun h => by cases h) (fun past s l t before ih hstep h => ?_) run h
  rcases opening_of_step hstep h with hold | hnew
  · obtain ⟨v, l', took, hv⟩ := ih hold
    exact ⟨v, l', took.append [l], hv⟩
  · exact ⟨s, l, .last before l, hnew⟩

/-- The session was opened in the past and is spared since. -/
def OpenSince (now : Instant) (past : List Label) (u : System) (x : Session) : Prop :=
  ∃ before i out after v w, past = before ++ (.work i x.sessionId, out) :: after ∧
    Run Step (blank now) before v ∧ v.tasks i = some (.opening x.subject x.role) ∧
    Step v (.work i x.sessionId, out) w ∧ Run (Spares x.sessionId x.subject) w after u ∧
    x.expiresAt = v.now + sessionTtl

theorem openSince_of_run (run : Run Step (blank now) past u) :
    ∀ x ∈ u.sessions, x.revokedAt = none → OpenSince now past u x := by
  refine Run.induction_last (P := fun past u => ∀ x ∈ u.sessions, x.revokedAt = none →
    OpenSince now past u x) (fun x hx => by cases hx) ?_ run
  intro past s l t before ih hstep x hx hlive
  obtain ⟨i, hevent, htask, hend⟩ | ⟨hold, hspares⟩ := sessions_of_step hstep hx hlive
  · obtain ⟨e, out⟩ := l
    obtain rfl : e = _ := hevent
    exact ⟨past, i, out, [], s, t, rfl, before, htask, hstep, .nil t, hend⟩
  · obtain ⟨first, i, out, after, v, w, rfl, hfirst, htask, hopen, hafter, hend⟩ := ih x hold hlive
    exact ⟨first, i, out, after ++ [l], v, w, by simp, hfirst, htask, hopen,
      hafter.append (.cons hspares (.nil t)), hend⟩

/-- A request that is granted has a session that a place opened after it had verified the user, less
than a day ago; neither a logout nor a revocation has come since. -/
theorem session_behind_request (run : Run Step (blank now)
      (past ++ (.request id, some (.user (some (username, role)))) :: future) s) :
    ∃ before i out after v w u, past = before ++ (.work i id, out) :: after ∧
      (∃ r l, Took Step (blank now) before r l ∧ Verifies i username role r l) ∧
      Run Step (blank now) before v ∧ Step v (.work i id, out) w ∧
      Run (Spares id username) w after u ∧ u.now < v.now + sessionTtl := by
  obtain ⟨u, _, hpast, hstep, _⟩ := run.split_at
  simp only [Step, System.step, Option.some.injEq, Prod.mk.injEq, Reply.user.injEq,
    Option.map_eq_some_iff] at hstep
  obtain ⟨-, x, hx, rfl, rfl⟩ := hstep
  obtain rfl : x.sessionId = id := by
    simpa using List.find?_some (Option.filter_eq_some_iff.mp hx).1
  obtain ⟨hmem, hvalid⟩ := getValidSession_mem hx
  simp only [Session.isValidAt, Bool.and_eq_true, Option.isNone_iff_eq_none,
    decide_eq_true_eq] at hvalid
  obtain ⟨before, i, out, after, v, w, rfl, hbefore, htask, hopen, hafter, hend⟩ :=
    openSince_of_run hpast x hmem hvalid.1
  exact ⟨before, i, out, after, v, w, u, rfl, verified_of_run hbefore htask, hbefore, hopen, hafter,
    hend ▸ hvalid.2⟩

theorem session_behind_request_amy : ∃ past s before i out after r l,
    Run Step (blank 0) (past ++ [(.request "s1", some (.user (some ("amy", .admin))))]) s ∧
    past = before ++ (.work i "s1", out) :: after ∧ Took Step (blank 0) before r l ∧
    Verifies i "amy" .admin r l := by
  obtain ⟨labels, s, run, hlast⟩ := exists_run (blank 0) (Sample.amyIn ++ [.request "s1"])
    (fun labels _ => labels = labels.dropLast ++
      [(.request "s1", some (.user (some ("amy", .admin))))]) (by decide +kernel)
  rw [hlast] at run
  obtain ⟨before, i, out, after, _, _, _, hpast, ⟨r, l, took, hverifies⟩, _⟩ :=
    session_behind_request run
  exact ⟨_, s, before, i, out, after, r, l, run, hpast, took, hverifies⟩

end Magnetite.Portal.System
