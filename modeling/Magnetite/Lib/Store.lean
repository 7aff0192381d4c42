import Mathlib.Data.List.Basic

/-!
# Programs against a store

A program makes one call to the store after the other. Each call may fail, which ends the program
unless the failure is caught, and what was written before stays written: there is no rollback. The
failures and the readings of the clock are given from outside. Triples say what holds of the store
when a program returns and when it fails.
-/
namespace Magnetite.Lib

/-- The store, which of the coming calls fail, and how often the clock was read. -/
structure Session (σ : Type) where
  db : σ
  faults : List Bool
  tick : Nat

/-- A program that reads the clock, works on the store and returns a value or an error. -/
def StoreM (ε σ α : Type) : Type := (Nat → Nat) → Session σ → Except ε α × Session σ

variable {ε σ α β : Type}

namespace StoreM

def ret (a : α) : StoreM ε σ α := fun _ s => (.ok a, s)

def andThen (m : StoreM ε σ α) (f : α → StoreM ε σ β) : StoreM ε σ β := fun clock s =>
  match m clock s with
  | (.ok a, t) => f a clock t
  | (.error e, t) => (.error e, t)

instance : Monad (StoreM ε σ) where
  pure := ret
  bind := andThen

def fail (e : ε) : StoreM ε σ α := fun _ s => (.error e, s)

/-- A call to the store: it fails if the next fault says so, and then changes nothing. -/
def call (broken : ε) (f : σ → Except ε α × σ) : StoreM ε σ α := fun _ s =>
  if s.faults.headD false then (.error broken, { s with faults := s.faults.tail })
  else ((f s.db).1, { s with db := (f s.db).2, faults := s.faults.tail })

/-- A call that reads. -/
def read (broken : ε) (f : σ → α) : StoreM ε σ α := call broken fun s => (.ok (f s), s)

/-- A call that writes. -/
def write (broken : ε) (f : σ → σ) : StoreM ε σ Unit := call broken fun s => (.ok (), f s)

def now : StoreM ε σ Nat := fun clock s => (.ok (clock s.tick), { s with tick := s.tick + 1 })

/-- The outcome of a program as a value; a failure does not go further. -/
def attempt (m : StoreM ε σ α) : StoreM ε σ (Except ε α) := fun clock s =>
  match m clock s with
  | (r, t) => (.ok r, t)

/-- The same program with another type of errors. -/
def mapError {ε' : Type} (f : ε → ε') (m : StoreM ε σ α) : StoreM ε' σ α := fun clock s =>
  match m clock s with
  | (.ok a, t) => (.ok a, t)
  | (.error e, t) => (.error (f e), t)

/-- One program for each element of a list, in order. -/
def each (l : List α) (f : α → StoreM ε σ Unit) : StoreM ε σ Unit :=
  match l with
  | [] => pure ()
  | a :: l => do
    f a
    each l f

end StoreM

open StoreM

/-- From a store with the precondition, the program returns with the postcondition or fails with
the error condition. -/
structure Triple (pre : σ → Prop) (m : StoreM ε σ α) (post : α → σ → Prop) (err : σ → Prop) :
    Prop where
  run : ∀ clock s, pre s.db →
    match m clock s with
    | (.ok a, t) => post a t.db
    | (.error _, t) => err t.db

namespace Triple

variable {pre pre' : σ → Prop} {post post' : α → σ → Prop} {err err' : σ → Prop}

theorem consequence {m : StoreM ε σ α} (h : Triple pre m post err) (hpre : ∀ s, pre' s → pre s)
    (hpost : ∀ a s, post a s → post' a s) (herr : ∀ s, err s → err' s) :
    Triple pre' m post' err' := by
  constructor
  intro clock s hs
  have := h.run clock s (hpre _ hs)
  split at this
  · exact hpost _ _ this
  · exact herr _ this

/-- One store with the precondition at a time. -/
theorem pointwise {m : StoreM ε σ α} (h : ∀ d, pre d → Triple (· = d) m post err) :
    Triple pre m post err :=
  ⟨fun clock s hs => (h s.db hs).run clock s rfl⟩

/-- A part of the precondition that does not speak of the store. -/
theorem assuming {m : StoreM ε σ α} {fact : Prop} (h : fact → Triple pre m post err) :
    Triple (fun s => pre s ∧ fact) m post err :=
  ⟨fun clock s hs => (h hs.2).run clock s hs.1⟩

theorem pure {a : α} (h : ∀ s, pre s → post a s) : Triple pre (Pure.pure a : StoreM ε σ α) post err :=
  ⟨fun _ s hs => h s.db hs⟩

theorem fail {e : ε} (h : ∀ s, pre s → err s) : Triple pre (StoreM.fail e) post err :=
  ⟨fun _ s hs => h s.db hs⟩

theorem bind {mid : α → σ → Prop} {post : β → σ → Prop} {m : StoreM ε σ α} {f : α → StoreM ε σ β}
    (first : Triple pre m mid err) (next : ∀ a, Triple (mid a) (f a) post err) :
    Triple pre (m >>= f) post err := by
  constructor
  intro clock s hs
  have h := first.run clock s hs
  simp only [Bind.bind, andThen]
  rcases hm : m clock s with ⟨r, t⟩
  rw [hm] at h
  cases r with
  | ok a => exact (next a).run clock t h
  | error e => exact h

/-- A value that is returned after a program. -/
theorem thenPure {after : σ → Prop} {m : StoreM ε σ α} {b : β}
    (h : Triple pre m (fun _ => after) err) :
    Triple pre (m >>= fun _ => Pure.pure b) (fun _ => after) err :=
  h.bind fun _ => pure fun _ hs => hs

theorem call {broken : ε} {f : σ → Except ε α × σ}
    (hok : ∀ s a, pre s → (f s).1 = .ok a → post a (f s).2)
    (herr : ∀ s e, pre s → (f s).1 = .error e → err (f s).2) (hfault : ∀ s, pre s → err s) :
    Triple pre (StoreM.call broken f) post err := by
  constructor
  intro clock s hs
  unfold StoreM.call
  split_ifs with hf
  · exact hfault s.db hs
  · cases hr : (f s.db).1 with
    | ok a => exact hok s.db a hs hr
    | error e => exact herr s.db e hs hr

theorem read {broken : ε} {f : σ → α} (h : ∀ s, pre s → post (f s) s) (herr : ∀ s, pre s → err s) :
    Triple pre (StoreM.read broken f) post err :=
  call (by simpa using h) (by simp) herr

theorem write {broken : ε} {f : σ → σ} {post : Unit → σ → Prop} (h : ∀ s, pre s → post () (f s))
    (herr : ∀ s, pre s → err s) : Triple pre (StoreM.write broken f) post err :=
  call (fun s _ hs _ => h s hs) (by simp) herr

theorem now {post : Nat → σ → Prop} (h : ∀ s t, pre s → post t s) :
    Triple pre (StoreM.now : StoreM ε σ Nat) post err :=
  ⟨fun _ s hs => h s.db _ hs⟩

theorem attempt {m : StoreM ε σ α} {post : Except ε α → σ → Prop}
    (h : Triple pre m (fun a => post (.ok a)) (fun s => ∀ e, post (.error e) s)) :
    Triple pre (StoreM.attempt m) post err := by
  constructor
  intro clock s hs
  have := h.run clock s hs
  simp only [StoreM.attempt]
  rcases hm : m clock s with ⟨r, t⟩
  rw [hm] at this
  cases r with
  | ok a => exact this
  | error e => exact this e

theorem mapError {ε' : Type} {f : ε → ε'} {m : StoreM ε σ α} (h : Triple pre m post err) :
    Triple pre (StoreM.mapError f m) post err := by
  constructor
  intro clock s hs
  have := h.run clock s hs
  simp only [StoreM.mapError]
  rcases hm : m clock s with ⟨r, t⟩
  rw [hm] at this
  cases r with
  | ok a => exact this
  | error e => exact this

/-- A read of a known store. -/
theorem readThen {broken : ε} {f : σ → α} {g : α → StoreM ε σ β} {d : σ} {post : β → σ → Prop}
    (h : Triple (· = d) (g (f d)) post err) (herr : err d) :
    Triple (· = d) (StoreM.read broken f >>= g) post err := by
  have hread : Triple (· = d) (StoreM.read broken f) (fun a s => s = d ∧ a = f d) err :=
    read (by rintro _ rfl; exact ⟨rfl, rfl⟩) (by rintro _ rfl; exact herr)
  refine hread.bind fun a => assuming ?_
  rintro rfl
  exact h

end Triple

/-- The program keeps an invariant, whether it returns or fails. -/
def Keeps (inv : σ → Prop) (m : StoreM ε σ α) : Prop := Triple inv m (fun _ => inv) inv

namespace Keeps

variable {inv : σ → Prop}

theorem pure (a : α) : Keeps inv (Pure.pure a : StoreM ε σ α) := Triple.pure fun _ hs => hs

theorem fail (e : ε) : Keeps inv (StoreM.fail e : StoreM ε σ α) := Triple.fail fun _ hs => hs

theorem read (broken : ε) (f : σ → α) : Keeps inv (StoreM.read broken f) :=
  Triple.read (fun _ hs => hs) fun _ hs => hs

theorem write {broken : ε} {f : σ → σ} (h : ∀ s, inv s → inv (f s)) :
    Keeps inv (StoreM.write broken f) :=
  Triple.write h fun _ hs => hs

theorem now : Keeps inv (StoreM.now : StoreM ε σ Nat) := Triple.now fun _ _ hs => hs

theorem bind {m : StoreM ε σ α} {f : α → StoreM ε σ β} (first : Keeps inv m)
    (next : ∀ a, Keeps inv (f a)) : Keeps inv (m >>= f) :=
  Triple.bind first next

theorem attempt {m : StoreM ε σ α} (h : Keeps inv m) : Keeps inv (StoreM.attempt m) :=
  Triple.attempt (h.consequence (fun _ hs => hs) (fun _ _ hs => hs) fun _ hs _ => hs)

/-- From one store with the invariant. -/
theorem triple {m : StoreM ε σ α} (h : Keeps inv m) {d : σ} (hd : inv d) :
    Triple (· = d) m (fun _ => inv) inv :=
  h.consequence (fun _ hs => hs ▸ hd) (fun _ _ hs => hs) fun _ hs => hs

/-- What each step of a loop keeps, the loop keeps. -/
theorem each {l : List α} {f : α → StoreM ε σ Unit} (h : ∀ a ∈ l, Keeps inv (f a)) :
    Keeps inv (StoreM.each l f) := by
  induction l with
  | nil => exact Keeps.pure ()
  | cons a l ih => exact Keeps.bind (h a (by simp)) fun _ => ih fun b hb => h b (by simp [hb])

end Keeps

/-- On a store that does not fail, the program returns with the postcondition. -/
structure Total (pre : σ → Prop) (m : StoreM ε σ α) (post : α → σ → Prop) : Prop where
  run : ∀ clock s, s.faults = [] → pre s.db →
    ∃ a t, m clock s = (.ok a, t) ∧ t.faults = [] ∧ post a t.db

namespace Total

variable {pre pre' : σ → Prop} {post post' : α → σ → Prop}

theorem consequence {m : StoreM ε σ α} (h : Total pre m post) (hpre : ∀ s, pre' s → pre s)
    (hpost : ∀ a s, post a s → post' a s) : Total pre' m post' := by
  constructor
  intro clock s hf hs
  obtain ⟨a, t, hm, ht, hpa⟩ := h.run clock s hf (hpre _ hs)
  exact ⟨a, t, hm, ht, hpost _ _ hpa⟩

/-- One store with the precondition at a time. -/
theorem pointwise {m : StoreM ε σ α} (h : ∀ d, pre d → Total (· = d) m post) : Total pre m post :=
  ⟨fun clock s hf hs => (h s.db hs).run clock s hf rfl⟩

theorem pure {a : α} (h : ∀ s, pre s → post a s) : Total pre (Pure.pure a : StoreM ε σ α) post :=
  ⟨fun _ s hf hs => ⟨a, s, rfl, hf, h s.db hs⟩⟩

theorem bind {mid : α → σ → Prop} {post : β → σ → Prop} {m : StoreM ε σ α} {f : α → StoreM ε σ β}
    (first : Total pre m mid) (next : ∀ a, Total (mid a) (f a) post) : Total pre (m >>= f) post := by
  constructor
  intro clock s hf hs
  obtain ⟨a, t, hm, ht, ha⟩ := first.run clock s hf hs
  obtain ⟨b, u, hb, hu, hpost⟩ := (next a).run clock t ht ha
  exact ⟨b, u, by simp only [Bind.bind, andThen, hm, hb], hu, hpost⟩

theorem call {broken : ε} {f : σ → Except ε α × σ}
    (h : ∀ s, pre s → ∃ a, (f s).1 = .ok a ∧ post a (f s).2) :
    Total pre (StoreM.call broken f) post := by
  constructor
  intro clock s hf hs
  obtain ⟨a, ha, hpost⟩ := h s.db hs
  refine ⟨a, { s with db := (f s.db).2, faults := [] }, ?_, rfl, hpost⟩
  simp [StoreM.call, hf, ha]

theorem read {broken : ε} {f : σ → α} (h : ∀ s, pre s → post (f s) s) :
    Total pre (StoreM.read broken f) post :=
  call fun s hs => ⟨f s, rfl, h s hs⟩

theorem write {broken : ε} {f : σ → σ} {post : Unit → σ → Prop} (h : ∀ s, pre s → post () (f s)) :
    Total pre (StoreM.write broken f) post :=
  call fun s hs => ⟨(), rfl, h s hs⟩

theorem now {post : Nat → σ → Prop} (h : ∀ s t, pre s → post t s) :
    Total pre (StoreM.now : StoreM ε σ Nat) post :=
  ⟨fun clock s hf hs => ⟨clock s.tick, _, rfl, hf, h s.db _ hs⟩⟩

theorem attempt {m : StoreM ε σ α} {post : Except ε α → σ → Prop}
    (h : Total pre m fun a => post (.ok a)) : Total pre (StoreM.attempt m) post := by
  constructor
  intro clock s hf hs
  obtain ⟨a, t, hm, ht, ha⟩ := h.run clock s hf hs
  exact ⟨.ok a, t, by simp only [StoreM.attempt, hm], ht, ha⟩

/-- A read of a known store. -/
theorem readThen {broken : ε} {f : σ → α} {g : α → StoreM ε σ β} {d : σ} {post : β → σ → Prop}
    (h : Total (· = d) (g (f d)) post) : Total (· = d) (StoreM.read broken f >>= g) post := by
  have hread : Total (· = d) (StoreM.read broken f) fun a s => s = d ∧ a = f d :=
    read (by rintro _ rfl; exact ⟨rfl, rfl⟩)
  refine hread.bind fun a => ⟨?_⟩
  rintro clock s hf ⟨hd, rfl⟩
  exact h.run clock s hf hd

/-- A read of a known store whose failure would be caught. -/
theorem attemptReadThen {broken : ε} {f : σ → α} {g : Except ε α → StoreM ε σ β} {d : σ}
    {post : β → σ → Prop} (h : Total (· = d) (g (.ok (f d))) post) :
    Total (· = d) (StoreM.attempt (StoreM.read broken f) >>= g) post := by
  have hread : Total (· = d) (StoreM.attempt (StoreM.read broken f)) fun r s =>
      s = d ∧ r = .ok (f d) :=
    attempt (read (by rintro _ rfl; exact ⟨rfl, rfl⟩))
  refine hread.bind fun r => ⟨?_⟩
  rintro clock s hf ⟨hd, rfl⟩
  exact h.run clock s hf hd

/-- A program whose outcome is not looked at. -/
theorem ignored {m : StoreM ε σ α} {after : σ → Prop} (h : Total pre m fun _ => after) :
    Total pre (do let _ ← StoreM.attempt m) fun _ => after :=
  bind (attempt h : Total pre (StoreM.attempt m) fun _ => after) fun _ => pure fun _ hs => hs

end Total

/-- On a store that does not fail, the program comes to an outcome with the postcondition. -/
structure Outcome (pre : σ → Prop) (m : StoreM ε σ α) (post : Except ε α → σ → Prop) : Prop where
  run : ∀ clock s, s.faults = [] → pre s.db →
    (m clock s).2.faults = [] ∧ post (m clock s).1 (m clock s).2.db

namespace Outcome

variable {pre pre' : σ → Prop} {post post' : Except ε α → σ → Prop}

theorem pure {a : α} (h : ∀ s, pre s → post (.ok a) s) :
    Outcome pre (Pure.pure a : StoreM ε σ α) post :=
  ⟨fun _ s hf hs => ⟨hf, h s.db hs⟩⟩

theorem fail {e : ε} (h : ∀ s, pre s → post (.error e) s) :
    Outcome pre (StoreM.fail e : StoreM ε σ α) post :=
  ⟨fun _ s hf hs => ⟨hf, h s.db hs⟩⟩

theorem bind {mid : Except ε α → σ → Prop} {post : Except ε β → σ → Prop} {m : StoreM ε σ α}
    {f : α → StoreM ε σ β} (first : Outcome pre m mid) (next : ∀ a, Outcome (mid (.ok a)) (f a) post)
    (failed : ∀ e s, mid (.error e) s → post (.error e) s) : Outcome pre (m >>= f) post := by
  constructor
  intro clock s hf hs
  have h := first.run clock s hf hs
  simp only [Bind.bind, andThen]
  rcases hm : m clock s with ⟨r, t⟩
  rw [hm] at h
  cases r with
  | ok a => exact (next a).run clock t h.1 h.2
  | error e => exact ⟨h.1, failed e t.db h.2⟩

theorem call {broken : ε} {f : σ → Except ε α × σ} (h : ∀ s, pre s → post (f s).1 (f s).2) :
    Outcome pre (StoreM.call broken f) post := by
  constructor
  intro clock s hf hs
  simpa [StoreM.call, hf] using h s.db hs

/-- After a program that cannot fail. -/
theorem after {mid : α → σ → Prop} {post : Except ε β → σ → Prop} {m : StoreM ε σ α}
    {f : α → StoreM ε σ β} (first : Total pre m mid) (next : ∀ a, Outcome (mid a) (f a) post) :
    Outcome pre (m >>= f) post := by
  constructor
  intro clock s hf hs
  obtain ⟨a, t, hm, ht, ha⟩ := first.run clock s hf hs
  have := (next a).run clock t ht ha
  simpa only [Bind.bind, andThen, hm] using this

/-- A failure that is caught is an outcome like any other. -/
theorem attempt {m : StoreM ε σ α} (h : Outcome pre m post) : Total pre (StoreM.attempt m) post := by
  constructor
  intro clock s hf hs
  obtain ⟨ht, hr⟩ := h.run clock s hf hs
  exact ⟨(m clock s).1, (m clock s).2, rfl, ht, hr⟩

/-- A read of a known store. -/
theorem readThen {broken : ε} {f : σ → α} {g : α → StoreM ε σ β} {d : σ}
    {post : Except ε β → σ → Prop} (h : Outcome (· = d) (g (f d)) post) :
    Outcome (· = d) (StoreM.read broken f >>= g) post := by
  have hread : Total (· = d) (StoreM.read broken f) fun a s => s = d ∧ a = f d :=
    Total.read (by rintro _ rfl; exact ⟨rfl, rfl⟩)
  refine after hread fun a => ⟨?_⟩
  rintro clock s hf ⟨hd, rfl⟩
  exact h.run clock s hf hd

end Outcome

end Magnetite.Lib
