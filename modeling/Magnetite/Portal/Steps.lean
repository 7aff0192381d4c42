import Magnetite.Portal.Accounts

/-!
# What a step changes

A step moves its own request only, and leaves the account table as it is, with one change applied,
or with one account more.
-/
namespace Magnetite.Portal
open Lib

/-! ## Account tables -/

def usernames (rows : List Account) : List String := rows.map (·.username)

/-- A change leaves the accounts of other users as they are. -/
theorem Change.mem_apply_of_ne {c : Change} {username : String} {rows : List Account}
    {a : Account} (h : a ∈ rows) (hne : a.username ≠ username) : a ∈ c.apply username rows := by
  cases c with
  | role r => exact Rows.mem_update.mpr (.inr ⟨h, hne⟩)
  | enabled b => exact Rows.mem_update.mpr (.inr ⟨h, hne⟩)
  | delete => exact Rows.mem_delete.mpr ⟨h, hne⟩

theorem mem_of_find {rows : List Account} {username : String} {a : Account}
    (h : findAccountByUsername rows username = some a) : a ∈ rows ∧ a.username = username :=
  ⟨List.mem_of_find?_eq_some h, by simpa using List.find?_some h⟩

namespace System

variable {s t : System}

/-! ## Requests -/

theorem finish_tasks {i j : Nat} {task : Task} (h : (s.finish i).tasks j = some task) :
    j ≠ i ∧ s.tasks j = some task := by
  simp only [finish, Function.update_apply] at h
  split_ifs at h with hj
  exact ⟨hj, h⟩

theorem wait_tasks {i j : Nat} {task new : Task} (h : (s.wait i new).tasks j = some task) :
    (j ≠ i ∧ s.tasks j = some task) ∨ (j = i ∧ task = new) := by
  simp only [wait, Function.update_apply] at h
  split_ifs at h with hj
  · exact .inr ⟨hj, (Option.some.inj h).symm⟩
  · exact .inl ⟨hj, h⟩

theorem insertAccount_some {username : String} {role : Role}
    (h : s.insertAccount username role = some t) :
    username ∉ usernames s.accounts ∧
      t = { s with accounts := s.accounts ++ [⟨username, role, true⟩] } := by
  unfold insertAccount at h
  split_ifs at h with hany
  refine ⟨?_, (Option.some.inj h).symm⟩
  rintro hmem
  obtain ⟨a, ha, rfl⟩ := List.mem_map.mp hmem
  exact hany (List.any_eq_true.mpr ⟨a, ha, by simp⟩)

/-- The request whose call a label is. -/
def Label.place (l : Label) : Option Nat :=
  match l.1 with
  | .create i _ _ | .setup i _ | .change i _ _ | .login i _ _ | .work i _ | .fail i => some i
  | .request _ | .revoke _ | .cleanup | .tick _ => none

theorem finish_tasks_of_ne {i j : Nat} (h : j ≠ i) : (s.finish i).tasks j = s.tasks j :=
  Function.update_of_ne h _ _

/-! ## Steps -/

/-- The three ways in which a step can leave the account table. -/
def Written (rows rows' : List Account) : Prop :=
  rows' = rows ∨ (∃ (c : Change) (username : String), rows' = c.apply username rows) ∨
    ∃ username role, username ∉ usernames rows ∧ rows' = rows ++ [⟨username, role, true⟩]

/-- A step of a request, if it is one, moves this request only. -/
structure Moves (s : System) (place : Option Nat) (t : System) : Prop where
  tasks : t.tasks = s.tasks ∨
    ∃ i new, place = some i ∧ t.tasks = Function.update s.tasks i new
  accounts : Written s.accounts t.accounts

theorem Moves.tasks_eq {place : Option Nat} (h : Moves s place t) {j : Nat}
    (hj : place ≠ some j) : t.tasks j = s.tasks j := by
  obtain htasks | ⟨i, new, rfl, htasks⟩ := h.tasks
  · rw [htasks]
  · rw [htasks, Function.update_of_ne]
    rintro rfl
    exact hj rfl

theorem moves_of_advance {i : Nat} {fresh : String} {task : Task} {out : Option Reply}
    (hstep : s.advance i fresh task = some (t, out)) : Moves s (some i) t := by
  constructor <;> cases task <;> grind [System.advance, System.finish, System.wait,
    System.release, → insertAccount_some, Written]

theorem moves_of_step {l : Label} (hstep : Step s l t) : Moves s l.place t := by
  obtain ⟨e, out⟩ := l
  cases e with
  | work i fresh =>
    simp only [Step, System.step] at hstep
    split at hstep
    · cases hstep
    · exact moves_of_advance hstep
  | _ => constructor <;> grind [Step, System.step, System.finish, System.wait, System.release,
      Label.place, Written]

/-- A place that no event of a run is about keeps what it has. -/
theorem tasks_of_run {past : List Label} {j : Nat} (h : ∀ l ∈ past, l.place ≠ some j)
    (run : Run Step s past t) : t.tasks j = s.tasks j := by
  have hrun : Run (fun s l t => l.place ≠ some j ∧ Step s l t) s past t := run.labelled h
  exact hrun.invariant (fun u => u.tasks j = s.tasks j)
    (fun _ _ _ hu hstep => ((moves_of_step hstep.2).tasks_eq hstep.1).trans hu) rfl

end System

end Magnetite.Portal
