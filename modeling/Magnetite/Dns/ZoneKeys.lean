import Magnetite.Lib.History
import Mathlib.Logic.Function.Basic

/-!
# Signing keys of zones

`load_signer` reads the key of a zone and, if it gets none, generates one, deletes the stored one,
inserts the new one and reads again. Queries do this at the same time, and every call to the store
may fail, in which case the function goes on.
-/
namespace Magnetite.Dns.ZoneKeys
open Lib

/-- A private key in its encoding, as stored. -/
abbrev KeyDer := List UInt8

/-- The next call of a query that loads the key of a zone. -/
inductive Task where
  | reading (zone : String)
  | deleting (zone : String) (der : KeyDer)
  | inserting (zone : String) (der : KeyDer)
  | rereading (zone : String) (der : KeyDer)
  deriving DecidableEq, Repr

/-- The table has one row for a zone (its index is unique). -/
structure Server where
  stored : String → Option KeyDer
  tasks : Nat → Option Task

inductive Event where
  | load (i : Nat) (zone : String)
  /-- The next call of a query, whether it fails, and the key that is generated if one is. -/
  | work (i : Nat) (fails : Bool) (fresh : KeyDer)
  deriving DecidableEq, Repr

inductive Output where
  | none
  /-- The query goes on with this key: in a DNSKEY answer or in signatures. -/
  | signer (zone : String) (der : KeyDer)
  | noSigner (zone : String)
  deriving DecidableEq, Repr

/-- `isKey` says whether the bytes decode to a signing key (`ZoneSigner::from_der`). -/
def signerOf (isKey : KeyDer → Bool) (zone : String) (der : KeyDer) : Output :=
  if isKey der then .signer zone der else .noSigner zone

namespace Server

def finish (s : Server) (i : Nat) : Server := { s with tasks := Function.update s.tasks i none }

def wait (s : Server) (i : Nat) (task : Task) : Server :=
  { s with tasks := Function.update s.tasks i (some task) }

def store (s : Server) (zone : String) (der : Option KeyDer) : Server :=
  { s with stored := Function.update s.stored zone der }

/-- What a read of the key returns. -/
def get (s : Server) (zone : String) (fails : Bool) : Option KeyDer :=
  if fails then none else s.stored zone

def advance (isKey : KeyDer → Bool) (s : Server) (i : Nat) (fails : Bool) (fresh : KeyDer) :
    Task → Server × Output
  | .reading zone =>
    match (s.get zone fails).filter isKey with
    | some der => (s.finish i, .signer zone der)
    | none => (s.wait i (.deleting zone fresh), .none)
  | .deleting zone der =>
    -- `put_zone_dnssec_key` returns at the first failure
    if fails then (s.wait i (.rereading zone der), .none)
    else ((s.store zone none).wait i (.inserting zone der), .none)
  | .inserting zone der =>
    if fails || (s.stored zone).isSome then (s.wait i (.rereading zone der), .none)
    else ((s.store zone (some der)).wait i (.rereading zone der), .none)
  | .rereading zone der =>
    (s.finish i, signerOf isKey zone ((s.get zone fails).getD der))

def step (isKey : KeyDer → Bool) (s : Server) : Event → Option (Server × Output)
  | .load i zone =>
    if (s.tasks i).isSome then none else some (s.wait i (.reading zone), .none)
  | .work i fails fresh =>
    match s.tasks i with
    | none => none
    | some task => some (s.advance isKey i fails fresh task)

abbrev Label := Event × Output

def Step (isKey : KeyDer → Bool) (s : Server) (l : Label) (t : Server) : Prop :=
  s.step isKey l.1 = some (t, l.2)

theorem exists_run (isKey : KeyDer → Bool) (s : Server) (events : List Event)
    (P : List Label → Server → Prop) [∀ labels t, Decidable (P labels t)]
    (h : (trace (step isKey) s events).any (fun p => decide (P p.1 p.2)) = true) :
    ∃ labels t, Run (Step isKey) s labels t ∧ P labels t :=
  exists_run_of_trace (step isKey) s events P h

/-! ## First use -/

/-- The query has found no key and is about to replace the stored one. -/
def Renews (s : Server) (i : Nat) (zone : String) : Prop :=
  ∃ der, s.tasks i = some (.deleting zone der) ∨ s.tasks i = some (.inserting zone der)

/-- What keeps the key: a query that is about to store a key comes when there is none, alone, and
its writes do not fail. -/
def Calm (isKey : KeyDer → Bool) (s : Server) (l : Label) : Prop :=
  match l.1 with
  | .load .. => True
  | .work i fails _ =>
    (∀ zone, s.tasks i = some (.reading zone) → (s.get zone fails).filter isKey = none →
      (s.stored zone).filter isKey = none ∧ ∀ j, ¬ s.Renews j zone) ∧
    ∀ zone, s.Renews i zone → fails = false

structure Settled (isKey : KeyDer → Bool) (past : List Label) (s : Server) : Prop where
  one : ∀ i j zone, s.Renews i zone → s.Renews j zone → i = j
  missing : ∀ i zone, s.Renews i zone → (s.stored zone).filter isKey = none
  deleted : ∀ i zone der, s.tasks i = some (.inserting zone der) → s.stored zone = none
  inserted : ∀ i zone der, s.tasks i = some (.rereading zone der) → isKey der = true →
    s.stored zone = some der
  served : ∀ e zone der, (e, .signer zone der) ∈ past →
    s.stored zone = some der ∧ isKey der = true

section Keep
variable {isKey : KeyDer → Bool} {s t : Server} {past : List Label}

theorem finish_tasks {i j : Nat} {task : Task} (h : (s.finish i).tasks j = some task) :
    s.tasks j = some task := by
  simp only [finish, Function.update_apply] at h
  split_ifs at h
  exact h

theorem wait_tasks {i j : Nat} {task new : Task} (h : (s.wait i new).tasks j = some task) :
    (j ≠ i ∧ s.tasks j = some task) ∨ (j = i ∧ task = new) := by
  simp only [wait, Function.update_apply] at h
  split_ifs at h with hj
  · exact .inr ⟨hj, (Option.some.inj h).symm⟩
  · exact .inl ⟨hj, h⟩

theorem Renews.of_tasks {j : Nat} {zone : String} (h : t.Renews j zone)
    (htasks : ∀ task, t.tasks j = some task → s.tasks j = some task) : s.Renews j zone := by
  obtain ⟨der, h | h⟩ := h
  · exact ⟨der, .inl (htasks _ h)⟩
  · exact ⟨der, .inr (htasks _ h)⟩

/-- A key that was used or that a query has stored is not being replaced. -/
theorem Settled.not_renews (h : Settled isKey past s) {zone : String} {der : KeyDer}
    (hstored : s.stored zone = some der) (hkey : isKey der = true) (i : Nat) :
    ¬ s.Renews i zone := by
  intro hr
  have hmissing := h.missing i zone hr
  simp [hstored, hkey] at hmissing

/-- The query ends, with a key that is the stored one if it ends with a key. -/
theorem Settled.ends (h : Settled isKey past s) {l : Label} {i : Nat}
    (hout : ∀ zone der, l.2 = .signer zone der →
      s.stored zone = some der ∧ isKey der = true) :
    Settled isKey (past ++ [l]) (s.finish i) where
  one j k zone hj hk :=
    h.one j k zone (hj.of_tasks fun _ => finish_tasks) (hk.of_tasks fun _ => finish_tasks)
  missing j zone hj := h.missing j zone (hj.of_tasks fun _ => finish_tasks)
  deleted j zone der hj := h.deleted j zone der (finish_tasks hj)
  inserted j zone der hj := h.inserted j zone der (finish_tasks hj)
  served e zone der hmem := by
    rw [List.mem_append, List.mem_singleton] at hmem
    obtain hold | rfl := hmem
    · exact h.served e zone der hold
    · exact hout zone der rfl

theorem served_append {l : Label} (hout : l.2 = .none) {e : Event} {zone : String} {der : KeyDer}
    (hmem : (e, .signer zone der) ∈ past ++ [l]) : (e, .signer zone der) ∈ past := by
  rw [List.mem_append, List.mem_singleton] at hmem
  obtain hold | rfl := hmem
  · exact hold
  · cases hout

/-- The query goes on to a call at which it neither replaces a key nor has stored one. -/
theorem Settled.reads (h : Settled isKey past s) {l : Label} (hout : l.2 = .none) {i : Nat}
    (zone : String) : Settled isKey (past ++ [l]) (s.wait i (.reading zone)) := by
  have old : ∀ j task, (s.wait i (.reading zone)).tasks j = some task →
      (∀ z, task ≠ .reading z) → s.tasks j = some task := by
    intro j task hj hne
    obtain ⟨-, hj⟩ | ⟨-, rfl⟩ := wait_tasks hj
    · exact hj
    · exact absurd rfl (hne zone)
  have renews : ∀ j z, (s.wait i (.reading zone)).Renews j z → s.Renews j z := by
    rintro j z ⟨der, hj | hj⟩
    · exact ⟨der, .inl (old j _ hj fun _ he => by cases he)⟩
    · exact ⟨der, .inr (old j _ hj fun _ he => by cases he)⟩
  exact ⟨fun j k z hj hk => h.one j k z (renews j z hj) (renews k z hk),
    fun j z hj => h.missing j z (renews j z hj),
    fun j z der hj => h.deleted j z der (old j _ hj fun _ he => by cases he),
    fun j z der hj => h.inserted j z der (old j _ hj fun _ he => by cases he),
    fun e z der hmem => h.served e z der (served_append hout hmem)⟩

/-- The query has found no key, and there is none. -/
theorem Settled.begins (h : Settled isKey past s) {l : Label} (hout : l.2 = .none) {i : Nat}
    {zone : String} {der : KeyDer} (hmissing : (s.stored zone).filter isKey = none)
    (halone : ∀ j, ¬ s.Renews j zone) :
    Settled isKey (past ++ [l]) (s.wait i (.deleting zone der)) := by
  have renews : ∀ j z, (s.wait i (.deleting zone der)).Renews j z →
      s.Renews j z ∨ (j = i ∧ z = zone) := by
    rintro j z ⟨d, hj | hj⟩
    · obtain ⟨-, hj⟩ | ⟨rfl, he⟩ := wait_tasks hj
      · exact .inl ⟨d, .inl hj⟩
      · cases he
        exact .inr ⟨rfl, rfl⟩
    · obtain ⟨-, hj⟩ | ⟨-, he⟩ := wait_tasks hj
      · exact .inl ⟨d, .inr hj⟩
      · cases he
  refine ⟨fun j k z hj hk => ?_, fun j z hj => ?_, fun j z d hj => ?_, fun j z d hj => ?_,
    fun e z d hmem => h.served e z d (served_append hout hmem)⟩
  · obtain hj' | ⟨hji, hz⟩ := renews j z hj <;> obtain hk' | ⟨hki, hz'⟩ := renews k z hk
    · exact h.one j k z hj' hk'
    · exact absurd (hz' ▸ hj') (halone j)
    · exact absurd (hz ▸ hk') (halone k)
    · rw [hji, hki]
  · obtain hj | ⟨rfl, rfl⟩ := renews j z hj
    · exact h.missing j z hj
    · exact hmissing
  · obtain ⟨-, hj⟩ | ⟨-, he⟩ := wait_tasks hj
    · exact h.deleted j z d hj
    · cases he
  · obtain ⟨-, hj⟩ | ⟨-, he⟩ := wait_tasks hj
    · exact h.inserted j z d hj
    · cases he

/-- The query that replaces the key writes to the row of its zone. -/
theorem Settled.writes (h : Settled isKey past s) {l : Label} (hout : l.2 = .none) {i : Nat}
    {zone : String} (hi : s.Renews i zone) {row : Option KeyDer} {new : Task}
    (hmissing : ∀ z, ((s.store zone row).wait i new).Renews i z →
      z = zone ∧ row.filter isKey = none)
    (hdeleted : ∀ z d, new = .inserting z d → z = zone ∧ row = none)
    (hinserted : ∀ z d, new = .rereading z d → z = zone ∧ row = some d) :
    Settled isKey (past ++ [l]) ((s.store zone row).wait i new) := by
  have others : ∀ j z, j ≠ i → ((s.store zone row).wait i new).Renews j z →
      s.Renews j z ∧ z ≠ zone := by
    intro j z hji hj
    have hs : s.Renews j z := hj.of_tasks fun task ht =>
      ((wait_tasks ht).resolve_right fun he => hji he.1).2
    refine ⟨hs, ?_⟩
    rintro rfl
    exact hji (h.one j i z hs hi)
  have elsewhere : ∀ z, z ≠ zone → ((s.store zone row).wait i new).stored z = s.stored z :=
    fun z hz => Function.update_of_ne hz _ _
  have here : ((s.store zone row).wait i new).stored zone = row := Function.update_self ..
  -- no key of the zone has been used, as the stored one is not there
  have unused : ∀ z d, s.stored z = some d → isKey d = true → z ≠ zone := by
    rintro z d hz hd rfl
    exact h.not_renews hz hd i hi
  refine ⟨fun j k z hj hk => ?_, fun j z hj => ?_, fun j z d hj => ?_, fun j z d hj hd => ?_,
    fun e z d hmem => ?_⟩
  · by_cases hji : j = i <;> by_cases hki : k = i
    · rw [hji, hki]
    · obtain ⟨rfl, -⟩ := hmissing z (hji ▸ hj)
      exact absurd rfl (others k z hki hk).2
    · obtain ⟨rfl, -⟩ := hmissing z (hki ▸ hk)
      exact absurd rfl (others j z hji hj).2
    · exact h.one j k z (others j z hji hj).1 (others k z hki hk).1
  · by_cases hji : j = i
    · obtain ⟨rfl, hrow⟩ := hmissing z (hji ▸ hj)
      rw [here]
      exact hrow
    · obtain ⟨hs, hz⟩ := others j z hji hj
      rw [elsewhere z hz]
      exact h.missing j z hs
  · obtain ⟨hji, hs⟩ | ⟨-, he⟩ := wait_tasks hj
    · rw [elsewhere z (others j z hji ⟨d, .inr hj⟩).2]
      exact h.deleted j z d hs
    · obtain ⟨rfl, hrow⟩ := hdeleted z d he.symm
      rw [here, hrow]
  · obtain ⟨-, hs⟩ | ⟨-, he⟩ := wait_tasks hj
    · have hold := h.inserted j z d hs hd
      rw [elsewhere z (unused z d hold hd)]
      exact hold
    · obtain ⟨rfl, hrow⟩ := hinserted z d he.symm
      rw [here, hrow]
  · obtain ⟨hold, hd⟩ := h.served e z d (served_append hout hmem)
    rw [elsewhere z (unused z d hold hd)]
    exact ⟨hold, hd⟩

theorem Settled.step (h : Settled isKey past s) {l : Label} (calm : Calm isKey s l)
    (hstep : Step isKey s l t) : Settled isKey (past ++ [l]) t := by
  obtain ⟨e, out⟩ := l
  cases e with
  | load i zone =>
    simp only [Step, Server.step] at hstep
    split_ifs at hstep
    cases hstep
    exact h.reads rfl zone
  | work i fails fresh =>
    obtain ⟨hread, hwrite⟩ := calm
    simp only [Step, Server.step] at hstep
    split at hstep
    · cases hstep
    next task htask =>
      cases task with
      | reading zone =>
        simp only [advance] at hstep
        split at hstep
        next der hget =>
          cases hstep
          refine h.ends fun z d he => ?_
          obtain ⟨rfl, rfl⟩ : zone = z ∧ der = d := by simpa using he
          obtain ⟨hstored, hkey⟩ := Option.filter_eq_some_iff.mp hget
          unfold get at hstored
          split_ifs at hstored
          exact ⟨hstored, hkey⟩
        next hget =>
          cases hstep
          obtain ⟨hmissing, halone⟩ := hread zone htask hget
          exact h.begins rfl hmissing halone
      | deleting zone der =>
        have hi : s.Renews i zone := ⟨der, .inl htask⟩
        obtain rfl := hwrite zone hi
        cases hstep
        refine h.writes rfl hi (fun z hz => ?_) (fun z d he => ?_) (fun z d he => by cases he)
        · obtain ⟨d, hd | hd⟩ := hz
          · obtain ⟨hne, -⟩ | ⟨-, he⟩ := wait_tasks hd
            · exact absurd rfl hne
            · cases he
          · obtain ⟨hne, -⟩ | ⟨-, he⟩ := wait_tasks hd
            · exact absurd rfl hne
            · cases he
              exact ⟨rfl, rfl⟩
        · cases he
          exact ⟨rfl, rfl⟩
      | inserting zone der =>
        have hi : s.Renews i zone := ⟨der, .inr htask⟩
        obtain rfl := hwrite zone hi
        have hnone := h.deleted i zone der htask
        simp only [advance, hnone] at hstep
        cases hstep
        refine h.writes rfl hi (fun z hz => ?_) (fun z d he => by cases he) (fun z d he => ?_)
        · obtain ⟨d, hd | hd⟩ := hz <;> obtain ⟨hne, -⟩ | ⟨-, he⟩ := wait_tasks hd
          · exact absurd rfl hne
          · cases he
          · exact absurd rfl hne
          · cases he
        · cases he
          exact ⟨rfl, rfl⟩
      | rereading zone der =>
        cases hstep
        refine h.ends fun z d he => ?_
        unfold signerOf at he
        split_ifs at he with hkey
        obtain ⟨rfl, hd⟩ : zone = z ∧ (s.get zone fails).getD der = d := by simpa using he
        cases hget : s.get zone fails with
        | none =>
          -- the key that the query has generated is the stored one
          rw [hget] at hkey hd
          obtain rfl : der = d := hd
          exact ⟨h.inserted i zone der htask hkey, hkey⟩
        | some k =>
          rw [hget] at hkey hd
          obtain rfl : k = d := hd
          unfold get at hget
          split_ifs at hget
          exact ⟨hget, hkey⟩

theorem settled_of_run {s₀ : Server} (idle : ∀ i, s₀.tasks i = none)
    (run : Run (Step isKey) s₀ past s)
    (calm : ∀ u l, Took (Step isKey) s₀ past u l → Calm isKey u l) : Settled isKey past s := by
  refine run.guarded ⟨?_, ?_, ?_, ?_, ?_⟩ (fun _ _ _ _ h calm hstep => h.step calm hstep) calm
  · rintro i j zone ⟨der, h | h⟩ <;> simp [idle] at h
  · rintro i zone ⟨der, h | h⟩ <;> simp [idle] at h
  · intro i zone der h
    simp [idle] at h
  · intro i zone der h
    simp [idle] at h
  · intro e zone der h
    cases h

end Keep

/-- In a run of calm steps a zone is served and signed with one key. -/
theorem zone_key_stable (isKey : KeyDer → Bool) (s₀ t : Server) (idle : ∀ i, s₀.tasks i = none)
    (labels : List Label) (run : Run (Step isKey) s₀ labels t)
    (calm : ∀ u l, Took (Step isKey) s₀ labels u l → Calm isKey u l) :
    ∀ e e' zone der der', (e, .signer zone der) ∈ labels → (e', .signer zone der') ∈ labels →
      der = der' := by
  intro e e' zone der der' h h'
  have settled := settled_of_run idle run calm
  have heq := (settled.served e zone der h).1.symm.trans (settled.served e' zone der' h').1
  exact Option.some.inj heq

/-! ## One query after the other -/

def Event.succeeds : Event → Bool
  | .load .. => true
  | .work _ fails _ => !fails

def Event.place : Event → Nat
  | .load i _ => i
  | .work i _ _ => i

section Place
variable {isKey : KeyDer → Bool} {s t : Server}

theorem tasks_of_step {l : Label} {j : Nat} (hj : Event.place l.1 ≠ j)
    (hstep : Step isKey s l t) : t.tasks j = s.tasks j := by
  have htasks : ∃ new, t.tasks = Function.update s.tasks (Event.place l.1) new := by
    obtain ⟨e, out⟩ := l
    cases e with
    | load i zone => grind [Step, Server.step, Server.wait, Event.place]
    | work i fails fresh =>
      simp only [Step, Server.step] at hstep
      split at hstep
      · cases hstep
      next task _ => cases task <;> grind [Server.advance, Server.finish, Server.wait,
        Server.store, Event.place]
  obtain ⟨new, htasks⟩ := htasks
  rw [htasks, Function.update_of_ne hj.symm]

theorem tasks_of_run {past : List Label} {j : Nat} (h : ∀ l ∈ past, Event.place l.1 ≠ j)
    (run : Run (Step isKey) s past t) : t.tasks j = s.tasks j := by
  have hrun : Run (fun s l t => Event.place l.1 ≠ j ∧ Step isKey s l t) s past t := run.labelled h
  exact hrun.invariant (fun u => u.tasks j = s.tasks j)
    (fun _ _ _ hu hstep => (tasks_of_step hstep.1 hstep.2).trans hu) rfl

/-- Calls that succeed, in queries of which each ends before the next begins, are calm. -/
theorem calm_of_place {l : Label} {i : Nat} (free : ∀ j, j ≠ i → s.tasks j = none)
    (hplace : Event.place l.1 = i) (hsucceeds : Event.succeeds l.1 = true) : Calm isKey s l := by
  obtain ⟨e, out⟩ := l
  cases e with
  | load i zone => trivial
  | work i' fails fresh =>
    obtain rfl : i' = i := hplace
    obtain rfl : fails = false := by simpa [Event.succeeds] using hsucceeds
    refine ⟨fun zone hread hget => ⟨hget, ?_⟩, fun _ _ => rfl⟩
    rintro j ⟨der, hj⟩
    by_cases hji : j = i'
    · subst hji
      simp [hread] at hj
    · simp [free j hji] at hj

end Place

namespace Sample

def fresh : Server := ⟨fun _ => none, fun _ => none⟩

/-- A query loads the key in place `i`, and generates `der` if it finds none. -/
def loading (i : Nat) (der : KeyDer) : List Event :=
  [.load i "example.com", .work i false der, .work i false [], .work i false [], .work i false []]

/-- Two first queries, of which both find no key before the first stores its own. -/
def raced : List Event :=
  [.load 0 "example.com", .load 1 "example.com", .work 0 false [1], .work 1 false [2],
    .work 0 false [], .work 0 false [], .work 0 false [], .work 1 false [], .work 1 false [],
    .work 1 false []]

/-- Of two first queries each serves its own key, and later a failed read replaces a key. -/
theorem zone_key_replaced :
    (∃ labels t, Run (Step fun _ => true) fresh labels t ∧
      (∀ l ∈ labels, Event.succeeds l.1 = true) ∧
      (.work 0 false [], .signer "example.com" [1]) ∈ labels ∧
      (.work 1 false [], .signer "example.com" [2]) ∈ labels) ∧
    ∃ labels t, Run (Step fun _ => true) fresh labels t ∧
      (.work 0 false [], .signer "example.com" [1]) ∈ labels.take 5 ∧
      (.load 1 "example.com", .none) ∈ labels.drop 5 ∧
      (.work 1 false [], .signer "example.com" [2]) ∈ labels.drop 5 := by
  refine ⟨?_, ?_⟩
  · exact exists_run (fun _ => true) fresh raced
      (fun labels _ => (∀ l ∈ labels, Event.succeeds l.1 = true) ∧
        (.work 0 false [], .signer "example.com" [1]) ∈ labels ∧
        (.work 1 false [], .signer "example.com" [2]) ∈ labels) (by decide +kernel)
  · exact exists_run (fun _ => true) fresh
      (loading 0 [1] ++ [.load 1 "example.com", .work 1 true [2], .work 1 false [],
        .work 1 false [], .work 1 false []])
      (fun labels _ => (.work 0 false [], .signer "example.com" [1]) ∈ labels.take 5 ∧
        (.load 1 "example.com", .none) ∈ labels.drop 5 ∧
        (.work 1 false [], .signer "example.com" [2]) ∈ labels.drop 5) (by decide +kernel)

/-- The key is generated by a first query, and found by a second. -/
def inOrder : List Event :=
  loading 0 [1] ++ [.load 0 "example.com", .work 0 false [2]]

theorem zone_key_stable_in_order : ∃ labels t,
    Run (Step fun _ => true) fresh labels t ∧
      labels.countP (fun l => l.2 = .signer "example.com" [1]) = 2 ∧
      ∀ e e' zone der der', (e, .signer zone der) ∈ labels → (e', .signer zone der') ∈ labels →
        der = der' := by
  obtain ⟨labels, t, run, hcount, hsucceeds, hplace⟩ := exists_run (fun _ => true) fresh inOrder
    (fun labels _ => labels.countP (fun l => l.2 = .signer "example.com" [1]) = 2 ∧
      (∀ l ∈ labels, Event.succeeds l.1 = true) ∧ ∀ l ∈ labels, Event.place l.1 = 0)
    (by decide +kernel)
  refine ⟨labels, t, run, hcount, zone_key_stable (fun _ => true) fresh t (fun _ => rfl) labels run
    fun u l took => calm_of_place ?_ (hplace l took.mem) (hsucceeds l took.mem)⟩
  intro j hj
  obtain ⟨past, future, rfl, before⟩ := took
  exact tasks_of_run (fun l' hl' => by rw [hplace l' (List.mem_append_left _ hl')]; exact hj.symm)
    before

end Sample

end Server

end Magnetite.Dns.ZoneKeys
