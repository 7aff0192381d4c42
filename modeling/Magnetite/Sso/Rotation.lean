import Magnetite.Lib.System
import Magnetite.Sso.Issuer
import Mathlib.Data.List.Sort

/-!
# Key rotation

The table of signing keys, the keyring of the running issuer and the tokens it has issued. A
rotation retires the active key, inserts a new one, prunes, loads the table and exchanges the
keyring; a start prunes, loads and makes a key if there is none. Each of these is a step of its
own, any number of rotations may be going on, and the issuer may crash between any two steps.
-/
namespace Magnetite.Sso.Rotation
open Lib

variable {ρ : Type} [DecidableEq ρ]

/-! ## Loading -/

def retiredKeyGraceSecs : Nat := 24 * 3600

def ttl : Instant := secs tokenTtlSecs
def grace : Instant := secs retiredKeyGraceSecs

def signingKey (r : SigningKeyRecord) : SigningKey := ⟨r.kid, r.privatePem⟩

/-- Active keys first, then the younger ones. -/
def loadSsoSigningKeys (rows : List SigningKeyRecord) : List SigningKeyRecord :=
  rows.insertionSort fun a b => a.state = .active ∧ b.state = .retired ∨
    a.state = b.state ∧ b.createdAt ≤ a.createdAt

/-- The first active key, and the others. -/
def assemble : List SigningKeyRecord → Option SigningKey × List SigningKey
  | [] => (none, [])
  | r :: rs =>
    if r.state = .active then (some (signingKey r), rs.map signingKey)
    else ((assemble rs).1, signingKey r :: (assemble rs).2)

/-! ## The issuer -/

/-- A call of `rotate` with its new key and the time it has read, or the start, which has none. -/
inductive Task where
  | idle
  | retiring (key : SigningKey) (stamp : Instant)
  | inserting (key : SigningKey) (stamp : Instant)
  | loading (stamp : Option Instant)
  | initialising (key : SigningKey) (retired : List SigningKey) (stamp : Option Instant)
  | swapping (ring : Keyring) (stamp : Option Instant)

def Task.stamp : Task → Option Instant
  | .idle => none
  | .retiring _ stamp => some stamp
  | .inserting _ stamp => some stamp
  | .loading stamp => stamp
  | .initialising _ _ stamp => stamp
  | .swapping _ stamp => stamp

/-- The start is the task without a name. The keys that have been generated and the tokens that
have been issued, with the key and the time, are kept along. -/
structure State (ρ : Type) where
  db : Tables
  now : Instant
  keyring : Option Keyring
  tasks : Option ρ → Task
  generated : List SigningKey
  issued : List (SigningKey × Instant)

def State.set (s : State ρ) (x : Option ρ) (task : Task) : State ρ :=
  { s with tasks := Function.update s.tasks x task }

/-- A key whose identifier has not been used. -/
def State.fresh (s : State ρ) (key : SigningKey) : Bool := s.generated.all (·.kid ≠ key.kid)

/-- The steps. A write that fails may have been applied or not; an update may also be lost without
an error, since nobody looks at the result of the statement. -/
inductive Label (ρ : Type) where
  | tick (now : Instant)
  | issue
  | rotate (r : ρ) (key : SigningKey)
  | retire (r : ρ) (applied ok : Bool)
  | insert (r : ρ) (id : String) (applied ok : Bool)
  | prune (x : Option ρ) (read : Instant) (applied : Bool)
  | load (x : Option ρ) (key : SigningKey) (ok : Bool)
  | init (x : Option ρ) (id : String) (applied ok : Bool)
  | swap (x : Option ρ)
  | start
  | crash

def insertKey (id : String) (now : Instant) (key : SigningKey) (db : Tables) : Tables :=
  (Edit.insertActiveSigningKey id now key.kid key.privatePem).exec db

def step (s : State ρ) : Label ρ → Option (State ρ)
  | .tick now => if s.now ≤ now then some { s with now := now } else none
  | .issue =>
    (s.keyring.bind List.head?).map fun key => { s with issued := (key, s.now) :: s.issued }
  | .rotate r key =>
    match s.keyring, s.tasks (some r) with
    | some _, .idle =>
      if s.fresh key then
        some { s.set (some r) (.retiring key s.now) with generated := key :: s.generated }
      else none
    | _, _ => none
  | .retire r applied ok =>
    match s.tasks (some r) with
    | .retiring key stamp =>
      some { s.set (some r) (if ok then .inserting key stamp else .idle) with
        db := if applied then retireActiveKeys stamp s.db else s.db }
    | _ => none
  | .insert r id applied ok =>
    match s.tasks (some r) with
    | .inserting key stamp =>
      if ok && !applied then none
      else some { s.set (some r) (if ok then .loading (some stamp) else .idle) with
        db := if applied then insertKey id stamp key s.db else s.db }
    | _ => none
  | .prune x read applied =>
    match s.tasks x with
    | .loading _ =>
      if read ≤ s.now then
        some { s with db := if applied then pruneRetiredSigningKeys (read - grace) s.db else s.db }
      else none
    | _ => none
  | .load x key ok =>
    match s.tasks x with
    | .loading stamp =>
      if ok then
        match assemble (loadSsoSigningKeys s.db.signingKeys) with
        | (some active, retired) => some (s.set x (.swapping (active :: retired) stamp))
        | (none, retired) =>
          if s.fresh key then
            some { s.set x (.initialising key retired stamp) with generated := key :: s.generated }
          else none
      else some (s.set x .idle)
    | _ => none
  | .init x id applied ok =>
    match s.tasks x with
    | .initialising key retired stamp =>
      if ok && !applied then none
      else some { s.set x (if ok then .swapping (key :: retired) stamp else .idle) with
        db := if applied then insertKey id s.now key s.db else s.db }
    | _ => none
  | .swap x =>
    match s.tasks x with
    | .swapping ring _ => some { s.set x .idle with keyring := some ring }
    | _ => none
  | .start =>
    match s.keyring, s.tasks none with
    | none, .idle => some (s.set none (.loading none))
    | _, _ => none
  | .crash => some { s with keyring := none, tasks := fun _ => .idle }

/-- Rotations do not overlap, no call to the store fails within one, and none takes so long that
its old key would be pruned before the tokens of that key have expired. -/
def Orderly (s : State ρ) : Label ρ → Prop
  | .tick now => ∀ r stamp, (s.tasks (some r)).stamp = some stamp → now + ttl ≤ stamp + grace
  | .rotate _ _ => ∀ x, s.tasks x = .idle
  | .retire _ applied ok => applied ∧ ok
  | .insert _ _ applied ok => applied ∧ ok
  | .load (some _) _ ok => ok
  | _ => True

/-! ## What is loaded -/

section Loading

variable {rows : List SigningKeyRecord}

theorem mem_loadSsoSigningKeys {r : SigningKeyRecord} : r ∈ loadSsoSigningKeys rows ↔ r ∈ rows :=
  List.mem_insertionSort _

/-- The keys of all rows are there, and no others. -/
theorem mem_assemble {key : SigningKey} :
    (assemble rows).1 = some key ∨ key ∈ (assemble rows).2 ↔ ∃ r ∈ rows, signingKey r = key := by
  induction rows with
  | nil => simp [assemble]
  | cons r rs ih =>
    rw [assemble]
    split
    · simp
    · simp only [List.mem_cons, exists_eq_or_imp]
      rw [← ih, or_left_comm, eq_comm]

theorem assemble_active {key : SigningKey} (h : (assemble rows).1 = some key) :
    ∃ r ∈ rows, signingKey r = key ∧ r.state = .active := by
  induction rows with
  | nil => cases h
  | cons r rs ih =>
    rw [assemble] at h
    split at h
    · next hactive => exact ⟨r, List.mem_cons_self, Option.some.inj h, hactive⟩
    · obtain ⟨r', hr', hkey⟩ := ih h
      exact ⟨r', List.mem_cons_of_mem _ hr', hkey⟩

theorem assemble_ne_none (h : ∃ r ∈ rows, r.state = .active) : (assemble rows).1 ≠ none := by
  induction rows with
  | nil => simp at h
  | cons r rs ih =>
    rw [assemble]
    split
    · simp
    · next hactive =>
      obtain ⟨r', hr', hactive'⟩ := h
      rcases List.mem_cons.mp hr' with rfl | hr'
      · exact absurd hactive' hactive
      · exact ih ⟨r', hr', hactive'⟩

end Loading

/-! ## The invariant -/

section Invariant

/-- The row is not pruned before the time. -/
def Lasts (r : SigningKeyRecord) (until_ : Instant) : Prop :=
  r.state = .active ∨ ∀ t, r.retiredAt = some t → until_ ≤ t + grace

theorem Lasts.mono {r : SigningKeyRecord} {a b : Instant} (h : Lasts r b) (hle : a ≤ b) :
    Lasts r a :=
  h.imp_right fun h t ht => hle.trans (h t ht)

/-- A row that lasts is not old enough to be pruned. -/
theorem not_lt_cutoff {t read now : Nat} (h : now ≤ t + grace) (hread : read ≤ now) :
    ¬ t < read - grace :=
  Nat.not_lt.mpr (Nat.sub_le_iff_le_add.mpr (hread.trans h))

namespace State

/-- The row of the key that signs: it is active, or the rotation that is going on retires it. -/
def Signs (s : State ρ) (task : Task) (key : SigningKey) : Prop :=
  ∃ r ∈ s.db.signingKeys, signingKey r = key ∧
    (r.state = .active ∨ ∃ t, task.stamp = some t ∧ r.retiredAt = some t)

/-- The keys of all tokens that have not expired are among these, which have all been generated. -/
def Covers (s : State ρ) (keys : List SigningKey) : Prop :=
  (∀ key ∈ keys, key ∈ s.generated) ∧
    ∀ token ∈ s.issued, s.now ≤ token.2 + ttl → token.1 ∈ keys

/-- A new key that is not in the table yet. -/
def Pending (s : State ρ) (key : SigningKey) : Prop :=
  key ∈ s.generated ∧ ∀ r ∈ s.db.signingKeys, r.kid ≠ key.kid

/-- What the task can rely on. -/
def Fits (s : State ρ) : Task → Prop
  | .idle => True
  | .retiring key _ => s.Pending key
  | .inserting key _ => s.Pending key
  | .loading stamp => stamp ≠ none → ∃ r ∈ s.db.signingKeys, r.state = .active
  | .initialising key retired stamp => stamp = none ∧ s.Pending key ∧ s.Covers retired
  | .swapping ring _ => s.Covers ring ∧
      (∀ old ∈ s.keyring, ∀ key ∈ old.head?, key ∈ ring) ∧
      ∃ key, ring.head? = some key ∧
        ∃ r ∈ s.db.signingKeys, signingKey r = key ∧ r.state = .active

/-- At most one task is going on. Every token that has not expired has its key in the table, for
as long as it needs it, and in the keyring. -/
structure Kept (s : State ρ) (x : Option ρ) (task : Task) : Prop where
  tasks : s.tasks = Function.update (fun _ => .idle) x task
  named : task ≠ .idle → (x = none ↔ task.stamp = none) ∧ (s.keyring = none ↔ task.stamp = none)
  timely : ∀ t, task.stamp = some t → s.now + ttl ≤ t + grace
  kids : ∀ k ∈ s.generated, ∀ k' ∈ s.generated, k.kid = k'.kid → k = k'
  rows : ∀ r ∈ s.db.signingKeys, signingKey r ∈ s.generated
  times : ∀ token ∈ s.issued, token.2 ≤ s.now
  table : ∀ token ∈ s.issued, s.now ≤ token.2 + ttl →
    ∃ r ∈ s.db.signingKeys, signingKey r = token.1 ∧ Lasts r (token.2 + ttl)
  ring : ∀ ring ∈ s.keyring, s.Covers ring ∧ ∃ key, ring.head? = some key ∧ s.Signs task key
  fits : s.Fits task

end State

variable {s t : State ρ} {x y : Option ρ} {task : Task}

theorem State.Kept.tasks_self (h : s.Kept x task) : s.tasks x = task := by
  rw [h.tasks, Function.update_self]

/-- A task that is not idle is the one. -/
theorem State.Kept.task_eq (h : s.Kept x task) {other : Task} (hy : s.tasks y = other)
    (hne : other ≠ .idle) : y = x ∧ task = other := by
  by_cases hyx : y = x
  · subst hyx
    exact ⟨rfl, h.tasks_self.symm.trans hy⟩
  · rw [h.tasks, Function.update_of_ne hyx] at hy
    exact absurd hy.symm hne

theorem State.Kept.set_tasks (h : s.Kept x task) (other : Task) :
    (s.set x other).tasks = Function.update (fun _ => .idle) x other := by
  rw [State.set, h.tasks, Function.update_idem]

namespace State

omit [DecidableEq ρ] in
theorem kids_of_fresh (hkids : ∀ k ∈ s.generated, ∀ k' ∈ s.generated, k.kid = k'.kid → k = k')
    {key : SigningKey} (hfresh : s.fresh key) :
    ∀ k ∈ key :: s.generated, ∀ k' ∈ key :: s.generated, k.kid = k'.kid → k = k' := by
  have hne (k : SigningKey) (hk : k ∈ s.generated) : k.kid ≠ key.kid := by
    simpa using List.all_eq_true.mp hfresh k hk
  intro k hk k' hk' heq
  rcases List.mem_cons.mp hk with hk | hk <;> rcases List.mem_cons.mp hk' with hk' | hk'
  · rw [hk, hk']
  · exact absurd (hk ▸ heq.symm) (hne k' hk')
  · exact absurd (hk' ▸ heq) (hne k hk)
  · exact hkids k hk k' hk' heq

omit [DecidableEq ρ] in
theorem pending_of_fresh (hrows : ∀ r ∈ s.db.signingKeys, signingKey r ∈ s.generated)
    {key : SigningKey} (hfresh : s.fresh key) :
    ({ s with generated := key :: s.generated } : State ρ).Pending key :=
  ⟨List.mem_cons_self, fun r hr =>
    of_decide_eq_true (List.all_eq_true.mp hfresh _ (hrows r hr))⟩

theorem Kept.tick (h : s.Kept x task) {now : Instant} (hle : s.now ≤ now)
    (horderly : Orderly s (.tick now)) : ({ s with now := now } : State ρ).Kept x task := by
  have later {keys : List SigningKey} (hc : s.Covers keys) :
      ({ s with now := now } : State ρ).Covers keys :=
    ⟨hc.1, fun token htoken hexp => hc.2 token htoken (hle.trans hexp)⟩
  refine ⟨h.tasks, h.named, fun t ht => ?_, h.kids, h.rows,
    fun token htoken => (h.times token htoken).trans hle,
    fun token htoken hexp => h.table token htoken (hle.trans hexp),
    fun ring hring => ⟨later (h.ring ring hring).1, (h.ring ring hring).2⟩, ?_⟩
  · have hne : task ≠ .idle := fun h0 => by simp [h0, Task.stamp] at ht
    cases x with
    | none => simp [(h.named hne).1.mp rfl] at ht
    | some r => exact horderly r t (by rw [h.tasks_self, ht])
  · have hfits := h.fits
    cases task with
    | initialising key retired stamp => exact ⟨hfits.1, hfits.2.1, later hfits.2.2⟩
    | swapping ring stamp => exact ⟨later hfits.1, hfits.2⟩
    | _ => exact hfits

/-- The key that signs is in the table for as long as a token it signs now. -/
theorem Kept.signs_lasts (h : s.Kept x task) {key : SigningKey} (hsigns : s.Signs task key) :
    ∃ r ∈ s.db.signingKeys, signingKey r = key ∧ Lasts r (s.now + ttl) := by
  obtain ⟨r, hr, hkey, hactive | ⟨t, hstamp, hretired⟩⟩ := hsigns
  · exact ⟨r, hr, hkey, .inl hactive⟩
  · refine ⟨r, hr, hkey, .inr fun u hu => ?_⟩
    rw [hretired] at hu
    exact Option.some.inj hu ▸ h.timely t hstamp

theorem Kept.issue (h : s.Kept x task) {ring : Keyring} {key : SigningKey}
    (hring : s.keyring = some ring) (hkey : ring.head? = some key) :
    ({ s with issued := (key, s.now) :: s.issued } : State ρ).Kept x task := by
  obtain ⟨hcovers, key', hkey', hsigns⟩ := h.ring ring hring
  obtain rfl := Option.some.inj (hkey.symm.trans hkey')
  have covers {keys : List SigningKey} (hc : s.Covers keys) (hin : key ∈ keys) :
      ({ s with issued := (key, s.now) :: s.issued } : State ρ).Covers keys :=
    ⟨hc.1, List.forall_mem_cons.mpr ⟨fun _ => hin, hc.2⟩⟩
  constructor
  case tasks => exact h.tasks
  case named => exact h.named
  case timely => exact h.timely
  case kids => exact h.kids
  case rows => exact h.rows
  case times => exact List.forall_mem_cons.mpr ⟨le_refl _, h.times⟩
  case table => exact List.forall_mem_cons.mpr ⟨fun _ => h.signs_lasts hsigns, h.table⟩
  case ring =>
    intro ring' hring'
    obtain rfl : ring = ring' := Option.some.inj (hring.symm.trans hring')
    exact ⟨covers hcovers (List.mem_of_head? hkey), key, hkey, hsigns⟩
  case fits =>
    have hfits := h.fits
    cases task with
    | initialising key retired stamp =>
      have hnone := (h.named (by simp)).2.mpr hfits.1
      rw [hring] at hnone
      cases hnone
    | swapping ring' stamp =>
      exact ⟨covers hfits.1 (hfits.2.1 ring hring key hkey), hfits.2⟩
    | _ => exact hfits

theorem Kept.rotate (h : s.Kept x task) {r : ρ} {key : SigningKey} (hring : s.keyring ≠ none)
    (hfresh : s.fresh key) (horderly : Orderly s (.rotate r key)) :
    ({ s.set (some r) (.retiring key s.now) with
      generated := key :: s.generated } : State ρ).Kept (some r) (.retiring key s.now) := by
  have hidle : task = .idle := h.tasks_self.symm.trans (horderly x)
  subst hidle
  constructor
  case tasks =>
    have hall : s.tasks = fun _ => .idle := funext horderly
    dsimp only [State.set]
    rw [hall]
  case named =>
    exact fun _ => ⟨⟨fun h => (Option.some_ne_none r h).elim, fun h => by cases h⟩,
      ⟨fun h => (hring h).elim, fun h => by cases h⟩⟩
  case timely =>
    rintro t ht
    obtain rfl := Option.some.inj ht
    exact Nat.add_le_add_left (by decide) _
  case kids => exact kids_of_fresh h.kids hfresh
  case rows => exact fun r hr => List.mem_cons_of_mem _ (h.rows r hr)
  case times => exact h.times
  case table => exact h.table
  case ring =>
    intro ring hring
    obtain ⟨hcovers, k, hk, r, hr, hkey, hactive | ⟨t, hstamp, -⟩⟩ := h.ring ring hring
    · exact ⟨⟨fun k hk => List.mem_cons_of_mem _ (hcovers.1 k hk), hcovers.2⟩, k, hk, r, hr, hkey,
        .inl hactive⟩
    · cases hstamp
  case fits => exact pending_of_fresh h.rows hfresh

theorem Kept.retire {r : ρ} {key : SigningKey} {stamp : Instant}
    (h : s.Kept (some r) (.retiring key stamp)) :
    ({ s.set (some r) (.inserting key stamp) with
      db := retireActiveKeys stamp s.db } : State ρ).Kept (some r) (.inserting key stamp) := by
  -- A row has its key as before, and is retired now if it was active.
  have forth (row : SigningKeyRecord) (hrow : row ∈ s.db.signingKeys) :
      ∃ row' ∈ (retireActiveKeys stamp s.db).signingKeys, signingKey row' = signingKey row ∧
        (row.state = .active ∧ row'.retiredAt = some stamp ∨ row' = row) := by
    by_cases hactive : row.state = .active
    · exact ⟨_, Rows.mem_update.mpr (.inl ⟨row, hrow, hactive, rfl⟩), rfl, .inl ⟨hactive, rfl⟩⟩
    · exact ⟨row, Rows.mem_update.mpr (.inr ⟨hrow, hactive⟩), rfl, .inr rfl⟩
  have back (row' : SigningKeyRecord)
      (hrow' : row' ∈ (retireActiveKeys stamp s.db).signingKeys) :
      ∃ row ∈ s.db.signingKeys, signingKey row' = signingKey row := by
    rcases Rows.mem_update.mp hrow' with ⟨row, hrow, -, rfl⟩ | ⟨hrow, -⟩
    · exact ⟨row, hrow, rfl⟩
    · exact ⟨row', hrow, rfl⟩
  have htimely := h.timely stamp rfl
  constructor
  case tasks => exact h.set_tasks _
  case named => exact fun _ => h.named (by simp)
  case timely => exact h.timely
  case kids => exact h.kids
  case rows =>
    intro row' hrow'
    obtain ⟨row, hrow, heq⟩ := back row' hrow'
    rw [heq]
    exact h.rows row hrow
  case times => exact h.times
  case table =>
    intro token htoken hexp
    obtain ⟨row, hrow, hkey, hlasts⟩ := h.table token htoken hexp
    obtain ⟨row', hrow', hkey', ⟨-, hretired⟩ | rfl⟩ := forth row hrow
    · refine ⟨row', hrow', hkey'.trans hkey, .inr fun t ht => ?_⟩
      rw [hretired] at ht
      obtain rfl := Option.some.inj ht
      exact (Nat.add_le_add_right (h.times token htoken) ttl).trans htimely
    · exact ⟨row', hrow', hkey, hlasts⟩
  case ring =>
    intro ring hring
    obtain ⟨hcovers, k, hk, row, hrow, hkey, hsigns⟩ := h.ring ring hring
    obtain ⟨row', hrow', hkey', ⟨-, hretired⟩ | rfl⟩ := forth row hrow
    · exact ⟨hcovers, k, hk, row', hrow', hkey'.trans hkey, .inr ⟨stamp, rfl, hretired⟩⟩
    · exact ⟨hcovers, k, hk, row', hrow', hkey, hsigns⟩
  case fits =>
    refine ⟨h.fits.1, fun row' hrow' => ?_⟩
    obtain ⟨row, hrow, heq⟩ := back row' hrow'
    rw [show row'.kid = row.kid from congrArg SigningKey.kid heq]
    exact h.fits.2 row hrow

omit [DecidableEq ρ] in
theorem insertKey_of_pending {key : SigningKey} (h : s.Pending key) (id : String) (now : Instant) :
    (insertKey id now key s.db).signingKeys =
      s.db.signingKeys ++ [⟨id, key.kid, key.privatePem, .active, now, none⟩] := by
  have hnone : s.db.signingKeys.any (·.kid == key.kid) = false := by
    rw [List.any_eq_false]
    intro r hr
    simpa using h.2 r hr
  rw [insertKey, Edit.exec, Edit.apply, insertActiveSigningKey, hnone]
  rfl

/-- What a step may do to the table and to the keys that have been generated: the rows that are
still needed stay. -/
structure Extends (s : State ρ) (rows : List SigningKeyRecord) (generated : List SigningKey) :
    Prop where
  keeps : ∀ r ∈ s.db.signingKeys, Lasts r s.now → r ∈ rows
  known : ∀ r ∈ rows, signingKey r ∈ generated
  grows : ∀ k ∈ s.generated, k ∈ generated
  kids : ∀ k ∈ generated, ∀ k' ∈ generated, k.kid = k'.kid → k = k'

theorem Kept.extends_self (h : s.Kept x task) : s.Extends s.db.signingKeys s.generated :=
  ⟨fun _ hr _ => hr, h.rows, fun _ hk => hk, h.kids⟩

theorem Kept.extends_insert (h : s.Kept x task) {row : SigningKeyRecord}
    (hrow : signingKey row ∈ s.generated) : s.Extends (s.db.signingKeys ++ [row]) s.generated :=
  ⟨fun _ hr _ => List.mem_append_left _ hr, Rows.forall_mem_insert h.rows hrow, fun _ hk => hk,
    h.kids⟩

theorem Kept.extends_prune (h : s.Kept x task) {read : Instant} (hread : read ≤ s.now) :
    s.Extends (pruneRetiredSigningKeys (read - grace) s.db).signingKeys s.generated := by
  refine ⟨fun r hr hlasts => List.mem_filter.mpr ⟨hr, ?_⟩,
    fun r hr => h.rows r (List.mem_filter.mp hr).1, fun _ hk => hk, h.kids⟩
  rcases hlasts with hactive | hlasts
  · simp [hactive]
  · cases hretired : r.retiredAt with
    | none => simp
    | some t =>
      have hcut : decide (t < read - grace) = false :=
        decide_eq_false (not_lt_cutoff (hlasts t hretired) hread)
      rw [Option.any_some, hcut, Bool.and_false]
      rfl

/-- The keyring stays, and the task goes on within the same rotation. -/
theorem Kept.ring_of_extends (h : s.Kept x task) {db : Tables} {tasks : Option ρ → Task}
    {generated : List SigningKey} {other : Task} (he : s.Extends db.signingKeys generated)
    (hstamp : other.stamp = task.stamp) : ∀ ring ∈ s.keyring,
      ({ s with db := db, tasks := tasks, generated := generated } : State ρ).Covers ring ∧
      ∃ key, ring.head? = some key ∧ ({ s with
        db := db, tasks := tasks, generated := generated } : State ρ).Signs other key := by
  intro ring hring
  obtain ⟨hcovers, key, hkey, r, hr, heq, hsigns⟩ := h.ring ring hring
  refine ⟨⟨fun k hk => he.grows k (hcovers.1 k hk), hcovers.2⟩, key, hkey, r, he.keeps r hr ?_, heq,
    by rwa [hstamp]⟩
  rcases hsigns with hactive | ⟨t, ht, hretired⟩
  · exact .inl hactive
  · refine .inr fun u hu => ?_
    obtain rfl := Option.some.inj (hretired.symm.trans hu)
    exact (Nat.le_add_right _ _).trans (h.timely t ht)

theorem Kept.goes (h : s.Kept x task) {db : Tables} {tasks : Option ρ → Task}
    {generated : List SigningKey} {keyring : Option Keyring} {other : Task}
    (htasks : tasks = Function.update (fun _ => .idle) x other)
    (he : s.Extends db.signingKeys generated)
    (hnamed : other ≠ .idle →
      (x = none ↔ other.stamp = none) ∧ (keyring = none ↔ other.stamp = none))
    (htimely : ∀ t, other.stamp = some t → s.now + ttl ≤ t + grace)
    (hring : ∀ ring ∈ keyring,
      ({ s with db := db, tasks := tasks, generated := generated } : State ρ).Covers ring ∧
      ∃ key, ring.head? = some key ∧
        ({ s with db := db, tasks := tasks, generated := generated } : State ρ).Signs other key)
    (hfits : State.Fits ⟨db, s.now, keyring, tasks, generated, s.issued⟩ other) :
    State.Kept ⟨db, s.now, keyring, tasks, generated, s.issued⟩ x other where
  tasks := htasks
  named := hnamed
  timely := htimely
  kids := he.kids
  rows := he.known
  times := h.times
  table token htoken hexp := by
    obtain ⟨r, hr, hkey, hlasts⟩ := h.table token htoken hexp
    exact ⟨r, he.keeps r hr (Lasts.mono hlasts hexp), hkey, hlasts⟩
  ring := hring
  fits := hfits

theorem Kept.insert {r : ρ} {key : SigningKey} {stamp : Instant} (id : String)
    (h : s.Kept (some r) (.inserting key stamp)) :
    ({ s.set (some r) (.loading (some stamp)) with
      db := Rotation.insertKey id stamp key s.db } : State ρ).Kept (some r)
        (.loading (some stamp)) := by
  have hrows := insertKey_of_pending h.fits id stamp
  have he : s.Extends (Rotation.insertKey id stamp key s.db).signingKeys s.generated := by
    rw [hrows]
    exact h.extends_insert h.fits.1
  refine h.goes (h.set_tasks _) he (fun _ => h.named (by simp)) h.timely
    (h.ring_of_extends he rfl)
    fun _ => ⟨⟨id, key.kid, key.privatePem, .active, stamp, none⟩, ?_, rfl⟩
  dsimp only
  rw [hrows]
  exact List.mem_append_right _ (List.mem_singleton_self _)

theorem Kept.prune {stamp : Option Instant} {read : Instant} (h : s.Kept x (.loading stamp))
    (hread : read ≤ s.now) : ({ s with
      db := pruneRetiredSigningKeys (read - grace) s.db } : State ρ).Kept x (.loading stamp) := by
  have he := h.extends_prune hread
  refine h.goes h.tasks he h.named h.timely (h.ring_of_extends he rfl) fun hstamp => ?_
  obtain ⟨r, hr, hactive⟩ := h.fits hstamp
  exact ⟨r, he.keeps r hr (.inl hactive), hactive⟩

/-- All keys of the table are loaded. -/
theorem Kept.covers_of_rows (h : s.Kept x task) {keys : List SigningKey}
    (hkeys : ∀ key, key ∈ keys ↔ ∃ r ∈ s.db.signingKeys, signingKey r = key) : s.Covers keys := by
  refine ⟨fun key hkey => ?_, fun token htoken hexp => ?_⟩
  · obtain ⟨r, hr, rfl⟩ := (hkeys key).mp hkey
    exact h.rows r hr
  · obtain ⟨r, hr, hkey, -⟩ := h.table token htoken hexp
    exact (hkeys _).mpr ⟨r, hr, hkey⟩

theorem mem_loaded {key : SigningKey} {rows : List SigningKeyRecord} :
    (assemble (loadSsoSigningKeys rows)).1 = some key ∨
      key ∈ (assemble (loadSsoSigningKeys rows)).2 ↔ ∃ r ∈ rows, signingKey r = key := by
  simp only [mem_assemble, mem_loadSsoSigningKeys]

theorem Kept.load {stamp : Option Instant} (h : s.Kept x (.loading stamp)) {active : SigningKey}
    (hactive : (assemble (loadSsoSigningKeys s.db.signingKeys)).1 = some active) :
    (s.set x (.swapping (active :: (assemble (loadSsoSigningKeys s.db.signingKeys)).2)
      stamp)).Kept x
        (.swapping (active :: (assemble (loadSsoSigningKeys s.db.signingKeys)).2) stamp) := by
  have hkeys (key : SigningKey) : key ∈ active :: (assemble
      (loadSsoSigningKeys s.db.signingKeys)).2 ↔ ∃ r ∈ s.db.signingKeys, signingKey r = key := by
    rw [← mem_loaded, hactive, List.mem_cons, Option.some.injEq, eq_comm]
  obtain ⟨row, hrow, hkey, hstate⟩ := assemble_active hactive
  refine h.goes (h.set_tasks _) h.extends_self (fun _ => h.named (by simp)) h.timely
    (h.ring_of_extends h.extends_self rfl) ⟨h.covers_of_rows hkeys, fun old hold key hk => ?_,
      active, rfl, row, mem_loadSsoSigningKeys.mp hrow, hkey, hstate⟩
  obtain ⟨-, key', hkey', row', hrow', hsigns, -⟩ := h.ring old hold
  obtain rfl := Option.some.inj (Option.mem_def.mp hk |>.symm.trans hkey')
  exact (hkeys _).mpr ⟨row', hrow', hsigns⟩

theorem Kept.initialise {stamp : Option Instant} (h : s.Kept x (.loading stamp))
    (hnone : (assemble (loadSsoSigningKeys s.db.signingKeys)).1 = none) {key : SigningKey}
    (hfresh : s.fresh key) :
    ({ s.set x (.initialising key (assemble (loadSsoSigningKeys s.db.signingKeys)).2 stamp) with
      generated := key :: s.generated } : State ρ).Kept x
        (.initialising key (assemble (loadSsoSigningKeys s.db.signingKeys)).2 stamp) := by
  have hstamp : stamp = none := by
    by_contra hne
    obtain ⟨r, hr, hactive⟩ := h.fits hne
    exact assemble_ne_none ⟨r, mem_loadSsoSigningKeys.mpr hr, hactive⟩ hnone
  have he : s.Extends s.db.signingKeys (key :: s.generated) :=
    ⟨fun _ hr _ => hr, fun r hr => List.mem_cons_of_mem _ (h.rows r hr),
      fun k hk => List.mem_cons_of_mem _ hk, kids_of_fresh h.kids hfresh⟩
  have hcovers : s.Covers (assemble (loadSsoSigningKeys s.db.signingKeys)).2 :=
    h.covers_of_rows fun k => by rw [← mem_loaded, hnone]; simp
  exact h.goes (h.set_tasks _) he (fun _ => h.named (by simp)) h.timely (h.ring_of_extends he rfl)
    ⟨hstamp, pending_of_fresh h.rows hfresh,
      fun k hk => List.mem_cons_of_mem _ (hcovers.1 k hk), hcovers.2⟩

/-- A key has been made for an empty table; the issuer is not running yet. -/
theorem Kept.init {key : SigningKey} {retired : List SigningKey} {stamp : Option Instant}
    (h : s.Kept x (.initialising key retired stamp)) (id : String) :
    ({ s.set x (.swapping (key :: retired) stamp) with
      db := Rotation.insertKey id s.now key s.db } : State ρ).Kept x
        (.swapping (key :: retired) stamp) := by
  obtain ⟨hstamp, hpending, hcovers⟩ := h.fits
  have hrows := insertKey_of_pending hpending id s.now
  have he : s.Extends (Rotation.insertKey id s.now key s.db).signingKeys s.generated := by
    rw [hrows]
    exact h.extends_insert hpending.1
  have hoff : s.keyring = none := (h.named (by simp)).2.mpr hstamp
  refine h.goes (h.set_tasks _) he (fun _ => h.named (by simp)) h.timely (h.ring_of_extends he rfl)
    ⟨⟨List.forall_mem_cons.mpr ⟨hpending.1, hcovers.1⟩,
      fun token htoken hexp => List.mem_cons_of_mem _ (hcovers.2 token htoken hexp)⟩,
      fun old hold => by simp [State.set, hoff] at hold, key, rfl,
      ⟨id, key.kid, key.privatePem, .active, s.now, none⟩, ?_, rfl, rfl⟩
  dsimp only
  rw [hrows]
  exact List.mem_append_right _ (List.mem_singleton_self _)

theorem Kept.swap {ring : Keyring} {stamp : Option Instant} (h : s.Kept x (.swapping ring stamp)) :
    ({ s.set x .idle with keyring := some ring } : State ρ).Kept x .idle := by
  obtain ⟨hcovers, -, key, hkey, row, hrow, heq, hactive⟩ := h.fits
  refine h.goes (h.set_tasks _) h.extends_self (fun hne => absurd rfl hne) (fun t ht => by cases ht)
    (fun ring' hring' => ?_) trivial
  obtain rfl := Option.some.inj hring'
  exact ⟨hcovers, key, hkey, row, hrow, heq, .inl hactive⟩

/-- The issuer is not running afterwards. -/
theorem Kept.off (h : s.Kept x task) {db : Tables} {tasks : Option ρ → Task}
    {keyring : Option Keyring} (hoff : keyring = none)
    (htasks : tasks = Function.update (fun _ => .idle) x .idle)
    (he : s.Extends db.signingKeys s.generated) :
    State.Kept ⟨db, s.now, keyring, tasks, s.generated, s.issued⟩ x .idle :=
  h.goes htasks he (fun hne => absurd rfl hne) (fun t ht => by cases ht)
    (fun ring hring => by simp [hoff] at hring) trivial

theorem Kept.start (h : s.Kept x .idle) (hoff : s.keyring = none) :
    (s.set none (.loading none)).Kept none (.loading none) := by
  have hnone : s.Kept none .idle :=
    { h with
      tasks := by rw [h.tasks, Function.update_eq_self, Function.update_eq_self]
      named := fun hne => absurd rfl hne }
  exact hnone.goes (hnone.set_tasks _) h.extends_self
    (fun _ => ⟨⟨fun _ => rfl, fun _ => rfl⟩, ⟨fun _ => rfl, fun _ => hoff⟩⟩)
    (fun t ht => by cases ht) (hnone.ring_of_extends h.extends_self rfl) fun h => absurd rfl h

theorem Kept.step_rotate (h : s.Kept x task) {r : ρ} {key : SigningKey}
    (hstep : step s (.rotate r key) = some t) (horderly : Orderly s (.rotate r key)) :
    ∃ x' task', t.Kept x' task' := by
  simp only [Rotation.step] at hstep
  split at hstep
  · next ring hring _ =>
    simp only [Option.ite_none_right_eq_some, Option.some.injEq] at hstep
    obtain ⟨hfresh, rfl⟩ := hstep
    exact ⟨_, _, h.rotate (by rw [hring]; simp) hfresh horderly⟩
  · cases hstep

theorem Kept.step_retire (h : s.Kept x task) {r : ρ} {applied ok : Bool}
    (hstep : step s (.retire r applied ok) = some t) (horderly : Orderly s (.retire r applied ok)) :
    ∃ x' task', t.Kept x' task' := by
  simp only [Rotation.step] at hstep
  split at hstep
  · next key stamp htask =>
    obtain ⟨rfl, rfl⟩ := h.task_eq htask (by simp)
    obtain ⟨rfl, rfl⟩ : applied = true ∧ ok = true := horderly
    obtain rfl := Option.some.inj hstep
    exact ⟨_, _, h.retire⟩
  · cases hstep

theorem Kept.step_insert (h : s.Kept x task) {r : ρ} {id : String} {applied ok : Bool}
    (hstep : step s (.insert r id applied ok) = some t)
    (horderly : Orderly s (.insert r id applied ok)) : ∃ x' task', t.Kept x' task' := by
  simp only [Rotation.step] at hstep
  split at hstep
  · next key stamp htask =>
    obtain ⟨rfl, rfl⟩ := h.task_eq htask (by simp)
    obtain ⟨rfl, rfl⟩ : applied = true ∧ ok = true := horderly
    obtain rfl := Option.some.inj hstep
    exact ⟨_, _, h.insert id⟩
  · cases hstep

theorem Kept.step_prune (h : s.Kept x task) {y : Option ρ} {read : Instant} {applied : Bool}
    (hstep : step s (.prune y read applied) = some t) : ∃ x' task', t.Kept x' task' := by
  simp only [Rotation.step] at hstep
  split at hstep
  · next stamp htask =>
    obtain ⟨rfl, rfl⟩ := h.task_eq htask (by simp)
    simp only [Option.ite_none_right_eq_some, Option.some.injEq] at hstep
    obtain ⟨hread, rfl⟩ := hstep
    cases applied with
    | false => exact ⟨_, _, h⟩
    | true => exact ⟨_, _, h.prune hread⟩
  · cases hstep

theorem Kept.step_load (h : s.Kept x task) {y : Option ρ} {key : SigningKey} {ok : Bool}
    (hstep : step s (.load y key ok) = some t) (horderly : Orderly s (.load y key ok)) :
    ∃ x' task', t.Kept x' task' := by
  simp only [Rotation.step] at hstep
  split at hstep
  · next stamp htask =>
    obtain ⟨rfl, rfl⟩ := h.task_eq htask (by simp)
    cases ok with
    | true =>
      simp only [if_true] at hstep
      split at hstep
      · next active retired hload =>
        obtain rfl := Option.some.inj hstep
        obtain rfl : (assemble (loadSsoSigningKeys s.db.signingKeys)).2 = retired := by rw [hload]
        exact ⟨_, _, h.load (by rw [hload])⟩
      · next retired hload =>
        simp only [Option.ite_none_right_eq_some, Option.some.injEq] at hstep
        obtain ⟨hfresh, rfl⟩ := hstep
        obtain rfl : (assemble (loadSsoSigningKeys s.db.signingKeys)).2 = retired := by rw [hload]
        exact ⟨_, _, h.initialise (by rw [hload]) hfresh⟩
    | false =>
      obtain rfl := Option.some.inj hstep
      cases y with
      | none =>
        have hnamed := h.named (by simp)
        exact ⟨_, _, h.off (hnamed.2.mpr (hnamed.1.mp rfl)) (h.set_tasks _) h.extends_self⟩
      | some r => exact absurd horderly (by simp [Orderly])
  · cases hstep

theorem Kept.step_init (h : s.Kept x task) {y : Option ρ} {id : String} {applied ok : Bool}
    (hstep : step s (.init y id applied ok) = some t) : ∃ x' task', t.Kept x' task' := by
  simp only [Rotation.step] at hstep
  split at hstep
  · next key retired stamp htask =>
    obtain ⟨rfl, rfl⟩ := h.task_eq htask (by simp)
    have hoff : s.keyring = none := (h.named (by simp)).2.mpr h.fits.1
    cases ok with
    | true =>
      cases applied with
      | true =>
        obtain rfl := Option.some.inj hstep
        exact ⟨_, _, h.init id⟩
      | false => cases hstep
    | false =>
      obtain rfl := Option.some.inj hstep
      refine ⟨_, _, h.off hoff (h.set_tasks _) ?_⟩
      cases applied with
      | true =>
        rw [if_pos rfl, insertKey_of_pending h.fits.2.1 id s.now]
        exact h.extends_insert h.fits.2.1.1
      | false => exact h.extends_self
  · cases hstep

theorem Kept.step_start (h : s.Kept x task) (hstep : step s .start = some t) :
    ∃ x' task', t.Kept x' task' := by
  simp only [Rotation.step] at hstep
  split at hstep
  · next hoff hidle =>
    obtain rfl := Option.some.inj hstep
    have htask : task = .idle := by
      by_contra hne
      have hnamed := h.named hne
      obtain rfl := hnamed.1.mpr (hnamed.2.mp hoff)
      exact hne (h.tasks_self.symm.trans hidle)
    subst htask
    exact ⟨_, _, h.start hoff⟩
  · cases hstep

theorem Kept.step {l : Label ρ} (h : s.Kept x task) (hstep : step s l = some t)
    (horderly : Orderly s l) : ∃ x' task', t.Kept x' task' := by
  cases l with
  | tick now =>
    simp only [Rotation.step, Option.ite_none_right_eq_some, Option.some.injEq] at hstep
    obtain ⟨hle, rfl⟩ := hstep
    exact ⟨x, task, h.tick hle horderly⟩
  | issue =>
    obtain ⟨key, hkey, rfl⟩ := Option.map_eq_some_iff.mp hstep
    obtain ⟨ring, hring, hhead⟩ := Option.bind_eq_some_iff.mp hkey
    exact ⟨x, task, h.issue hring hhead⟩
  | rotate r key => exact h.step_rotate hstep horderly
  | retire r applied ok => exact h.step_retire hstep horderly
  | insert r id applied ok => exact h.step_insert hstep horderly
  | prune y read applied => exact h.step_prune hstep
  | load y key ok => exact h.step_load hstep horderly
  | init y id applied ok => exact h.step_init hstep
  | swap y =>
    simp only [Rotation.step] at hstep
    split at hstep
    · next ring stamp htask =>
      obtain ⟨rfl, rfl⟩ := h.task_eq htask (by simp)
      obtain rfl := Option.some.inj hstep
      exact ⟨_, _, h.swap⟩
    · cases hstep
  | start => exact h.step_start hstep
  | crash =>
    obtain rfl := Option.some.inj hstep
    exact ⟨x, .idle, h.off rfl (by simp) h.extends_self⟩

end State

/-! ## Tokens -/

/-- The issuer is not running, and the keys of the table are different ones. -/
structure Start (s : State ρ) : Prop where
  off : s.keyring = none
  tasks : s.tasks = fun _ => .idle
  issued : s.issued = []
  rows : ∀ r ∈ s.db.signingKeys, signingKey r ∈ s.generated
  kids : ∀ k ∈ s.generated, ∀ k' ∈ s.generated, k.kid = k'.kid → k = k'

theorem Start.kept (h : Start s) : s.Kept none .idle where
  tasks := by rw [h.tasks, Function.update_eq_self]
  named hne := absurd rfl hne
  timely t ht := by cases ht
  kids := h.kids
  rows := h.rows
  times := by simp [h.issued]
  table := by simp [h.issued]
  ring ring hring := by simp [h.off] at hring
  fits := trivial

/-- A key of the ring verifies its tokens until they expire. -/
theorem decode_of_mem {ring : Keyring} {key : SigningKey} {now issuedAt : Instant}
    {claims : AccessClaims} (hmem : key ∈ ring)
    (hkids : ∀ k ∈ ring, k.kid = key.kid → k = key) (hexp : claims.exp = timestamp issuedAt +
      tokenTtlSecs) (hnow : now ≤ issuedAt + ttl) :
    ring.decode claims.iss now ⟨some key.kid, key.privatePem, claims⟩ = some claims := by
  have hfind : ring.keyFor (some key.kid) = some key := by
    cases hfound : ring.keyFor (some key.kid) with
    | none =>
      have := List.find?_eq_none.mp hfound key hmem
      simp at this
    | some k =>
      have hk := List.find?_some hfound
      rw [hkids k (List.mem_of_find?_eq_some hfound) (by simpa using hk)]
  have hlive : ¬ claims.exp + leeway < timestamp now := by
    have : timestamp now ≤ timestamp issuedAt + tokenTtlSecs := by
      calc timestamp now ≤ (issuedAt + ttl) / 1000000000 := Nat.div_le_div_right hnow
        _ = timestamp issuedAt + tokenTtlSecs := Nat.add_mul_div_right _ _ (by decide)
    rw [hexp]
    exact Nat.not_lt.mpr (this.trans (Nat.le_add_right _ _))
  rw [Keyring.decode, hfind]
  dsimp only
  rw [if_neg (fun h => h rfl), if_neg (fun h => h rfl), if_neg hlive]

/-- After every orderly run of issues, rotations, crashes and starts, a token that has not expired
has its key in the keyring of the running issuer, which accepts it. -/
theorem tokens_outlive_rotations {start : State ρ} {labels : List (Label ρ)} (hstart : Start start)
    (hrun : Run (fun s l t => step s l = some t ∧ Orderly s l) start labels s) :
    ∀ token ∈ s.issued, s.now ≤ token.2 + ttl → ∀ ring, s.keyring = some ring →
      token.1 ∈ ring ∧ ∀ claims : AccessClaims, claims.exp = timestamp token.2 + tokenTtlSecs →
        ring.decode claims.iss s.now ⟨some token.1.kid, token.1.privatePem, claims⟩ =
          some claims := by
  obtain ⟨x, task, h⟩ : ∃ x task, s.Kept x task :=
    hrun.invariant (fun s => ∃ x task, s.Kept x task)
      (fun _ _ _ ⟨_, _, h⟩ hstep => h.step hstep.1 hstep.2) ⟨_, _, hstart.kept⟩
  intro token htoken hexp ring hring
  obtain ⟨⟨hknown, htokens⟩, -⟩ := h.ring ring hring
  have hmem := htokens token htoken hexp
  exact ⟨hmem, fun claims hclaims => decode_of_mem hmem
    (fun k hk heq => h.kids k (hknown k hk) _ (hknown _ hmem) heq) hclaims hexp⟩

end Invariant

/-! ## Samples -/

namespace Sample

def start : State Bool := ⟨.empty, 0, none, fun _ => .idle, [], []⟩

def first : SigningKey := ⟨"kid0", "pem0"⟩
def second : SigningKey := ⟨"kid1", "pem1"⟩
def third : SigningKey := ⟨"kid2", "pem2"⟩

/-- Up to a running issuer. -/
def boot : List (Label Bool) :=
  [.start, .load none first true, .init none "0" true true, .swap none]

/-- Two rotations; the one that loaded first exchanges the keyring last. A token is issued in
between. -/
def overlapping : List (Label Bool) :=
  boot ++ [.rotate false second, .retire false true true, .insert false "1" true true,
    .load (some false) first true, .rotate true third, .retire true true true,
    .insert true "2" true true, .load (some true) first true, .swap (some true), .issue,
    .swap (some false)]

/-- The new key is not inserted; the issuer goes on for more than a day, issues a token and is
started again. -/
def failing : List (Label Bool) :=
  boot ++ [.rotate false second, .retire false true true, .insert false "1" false false,
    .tick (grace + 1), .issue, .crash, .start, .prune none (grace + 1) true,
    .load none third true, .init none "2" true true, .swap none]

def claims (issuedAt : Instant) : AccessClaims :=
  ⟨"https://idp", "alice", "app", timestamp issuedAt + tokenTtlSecs, timestamp issuedAt, "openid",
    "access", none, none⟩

/-- The age of the last token, its key in the ring, and what the verifier says. -/
def lastToken (labels : List (Label Bool)) : Option (Instant × Bool × Option AccessClaims) := do
  let s ← labels.foldlM step start
  let ring ← s.keyring
  let (key, issuedAt) ← s.issued.head?
  some (s.now - issuedAt, ring.contains key,
    ring.decode "https://idp" s.now ⟨some key.kid, key.privatePem, claims issuedAt⟩)

theorem token_lost :
    lastToken overlapping = some (0, false, none) ∧ lastToken failing = some (0, false, none) := by
  decide +kernel

/-- A token, then a whole rotation that takes five minutes, and the last moment of the token. -/
def rotated : List (Label Bool) :=
  boot ++ [.issue, .tick (secs 600), .rotate false second, .retire false true true,
    .tick (secs 700), .insert false "1" true true, .prune (some false) (secs 700) true,
    .load (some false) third true, .tick (secs 900), .swap (some false), .tick ttl]

theorem run_rotated : ∃ s, Run (fun s l t => step s l = some t ∧ Orderly s l) start rotated s ∧
    s.issued = [(first, 0)] ∧ s.now = ttl ∧ s.keyring = some [second, first] := by
  have hidle {s : State Bool} {now : Instant} (hfree : ∀ r, s.tasks (some r) = .idle) :
      Orderly s (.tick now) := fun r t ht => by simp [hfree r, Task.stamp] at ht
  have hrotating {s : State Bool} {now : Instant} (hfree : s.tasks (some true) = .idle)
      (hstamp : (s.tasks (some false)).stamp = some (secs 600)) (htime : now ≤ secs 900) :
      Orderly s (.tick now) := by
    rintro (_ | _) t ht
    · obtain rfl := Option.some.inj (hstamp.symm.trans ht)
      exact (Nat.add_le_add_right htime ttl).trans (by decide)
    · simp [hfree, Task.stamp] at ht
  exact ⟨_, .cons ⟨rfl, trivial⟩ (.cons ⟨rfl, trivial⟩ (.cons ⟨rfl, trivial⟩ (.cons ⟨rfl, trivial⟩
    (.cons ⟨rfl, trivial⟩ (.cons ⟨rfl, hidle (by rintro (_ | _) <;> rfl)⟩
    (.cons ⟨rfl, by rintro (_ | _ | _) <;> rfl⟩
    (.cons ⟨rfl, rfl, rfl⟩ (.cons ⟨rfl, hrotating rfl rfl (by decide)⟩
    (.cons ⟨rfl, rfl, rfl⟩ (.cons ⟨rfl, trivial⟩ (.cons ⟨rfl, rfl⟩
    (.cons ⟨rfl, hrotating rfl rfl (by decide)⟩ (.cons ⟨rfl, trivial⟩
    (.cons ⟨rfl, hidle (by rintro (_ | _) <;> rfl)⟩ (.nil _))))))))))))))), rfl, rfl, rfl⟩

theorem tokens_outlive_rotations_whole :
    ∃ s : State Bool, s.issued = [(first, 0)] ∧ s.now = ttl ∧ s.keyring = some [second, first] ∧
      Keyring.decode [second, first] "https://idp" s.now ⟨some "kid0", "pem0", claims 0⟩ =
        some (claims 0) := by
  obtain ⟨s, hrun, hissued, hnow, hring⟩ := run_rotated
  have hstart : Start start := ⟨rfl, rfl, rfl, by simp [start, Tables.empty], by simp [start]⟩
  exact ⟨s, hissued, hnow, hring, (tokens_outlive_rotations hstart hrun (first, 0) (by simp [hissued])
    (by simp [hnow]) [second, first] hring).2 (claims 0) rfl⟩

end Sample

end Magnetite.Sso.Rotation
