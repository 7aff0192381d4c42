import Mathlib.Data.List.Basic
import Mathlib.Tactic.SplitIfs

/-!
# Programs on a shared state

A program makes one call to the state after the other; a call is atomic, and what the program does
next depends on the state the call found.
-/
namespace Magnetite.Lib

/-- Every call has a kind, changes the state and goes on according to the state it found. -/
inductive Prog (κ σ α : Type) where
  | done (a : α)
  | step (kind : κ) (effect : σ → σ) (next : σ → Prog κ σ α)

namespace Prog

variable {κ σ α β : Type}

def andThen : Prog κ σ α → (α → Prog κ σ β) → Prog κ σ β
  | done a, f => f a
  | step kind effect next, f => step kind effect fun s => (next s).andThen f

instance : Monad (Prog κ σ) where
  pure := done
  bind := andThen

/-- A call that changes the state. -/
def change (kind : κ) (effect : σ → σ) : Prog κ σ Unit := step kind effect fun _ => done ()

/-- A call that reads the state. -/
def look (kind : κ) (f : σ → α) : Prog κ σ α := step kind id fun s => done (f s)

/-! ## Alone -/

/-- All calls of a program with nobody else at work. -/
def run : Prog κ σ α → σ → α × σ
  | done a, s => (a, s)
  | step _ effect next, s => (next s).run (effect s)

@[simp] theorem run_bind (p : Prog κ σ α) (f : α → Prog κ σ β) (s : σ) :
    (p >>= f).run s = (f (p.run s).1).run (p.run s).2 := by
  induction p generalizing s with
  | done a => rfl
  | step kind effect next ih => exact ih s (effect s)

@[simp] theorem run_look (kind : κ) (f : σ → α) (g : α → Prog κ σ β) (s : σ) :
    (look kind f >>= g).run s = (g (f s)).run s := rfl

end Prog

end Magnetite.Lib
