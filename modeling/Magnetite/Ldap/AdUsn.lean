import Magnetite.Ldap.SyncStore

/-!
# Import by polling for changes

A pass searches the upstream directory page by page, applies every entry it is sent and, when it
reconciles, removes the imported entries that it was not sent. Errors end the pass before anything
is removed and before the cursor moves. Running out of pages does not: a pass that stops at the page
limit takes what it has seen for all there is.
-/
namespace Magnetite.Ldap

open Magnetite.Lib

/-! ## What the upstream server sends -/

/-- A search result with the attributes as the directory keeps them. -/
structure AdEntry where
  dn : String
  guid : Option String
  usnChanged : Option ℕ
  objectClasses : List String
  attributes : Attributes
  enabled : Bool
deriving DecidableEq

/-- Referrals and other messages are passed over. -/
inductive SearchItem where
  | entry (e : AdEntry)
  | other
deriving DecidableEq

inductive PageEnd where
  | done (success : Bool) (cookie : Option (List UInt8))
  | closed
  | broken
deriving DecidableEq

/-- The answer to one search request. -/
structure PageAnswer where
  items : List SearchItem
  finish : PageEnd
deriving DecidableEq

/-- Whether the bind succeeded, and the answers to the search requests. -/
structure Provider where
  bound : Bool
  answers : List PageAnswer

/-! ## The pass -/

inductive SyncError where
  | db (e : DbError)
  | bindFailed
  | searchRejected
  | connectionClosed
  | io
deriving DecidableEq

abbrev SyncM := StoreM SyncError Directory

/-- Backstop against a server whose cookie never empties. -/
def maxPages : ℕ := 100000

structure Pass where
  applied : ℕ
  maxUsn : ℕ
  seen : List String
deriving DecidableEq

def AdEntry.toSync (e : AdEntry) (guid : String) : SyncEntry :=
  ⟨e.dn, guid, e.objectClasses, e.attributes, e.enabled⟩

def readEntry (reconcile : Bool) (acc : Pass) (e : AdEntry) : SyncM Pass := do
  let acc := { acc with maxUsn := max acc.maxUsn (e.usnChanged.getD 0) }
  match e.guid with
  | none => return acc
  | some guid =>
    let acc := if reconcile then { acc with seen := guid :: acc.seen } else acc
    let _ ← (Db.applyLdapSyncEntry (e.toSync guid)).mapError .db
    return { acc with applied := acc.applied + 1 }

def readItems (reconcile : Bool) : List SearchItem → Pass → SyncM Pass
  | [], acc => return acc
  | .other :: items, acc => readItems reconcile items acc
  | .entry e :: items, acc => do
    let acc ← readEntry reconcile acc e
    readItems reconcile items acc

/-- At most the given number of pages; a page without a cookie is the last. -/
def readPages (reconcile : Bool) : ℕ → List PageAnswer → Pass → SyncM Pass
  | 0, _, acc => return acc
  | _ + 1, [], _ => .fail .connectionClosed
  | n + 1, a :: answers, acc => do
    let acc ← readItems reconcile a.items acc
    match a.finish with
    | .done false _ => .fail .searchRejected
    | .done true cookie =>
      if cookie.any (· ≠ []) then readPages reconcile n answers acc else return acc
    | .closed => .fail .connectionClosed
    | .broken => .fail .io

def dropUnseen (seen : List String) : List String → ℕ → SyncM ℕ
  | [], deleted => return deleted
  | uuid :: uuids, deleted =>
    if uuid ∈ seen then dropUnseen seen uuids deleted
    else do
      let gone ← (Db.applyLdapSyncDelete uuid).mapError .db
      dropUnseen seen uuids (if gone then deleted + 1 else deleted)

/-- How many entries were applied and deleted, and the cursor to go on from. -/
def adUsnPass (provider : Provider) (reconcile : Bool) (lastUsn : ℕ) : SyncM (ℕ × ℕ × ℕ) := do
  if !provider.bound then .fail .bindFailed
  else
    let acc ← readPages reconcile maxPages provider.answers ⟨0, lastUsn, []⟩
    -- an empty enumeration is taken for a failure
    if reconcile && acc.seen ≠ [] then
      let uuids ← Db.ldapImportedUuids.mapError .db
      let deleted ← dropUnseen acc.seen uuids 0
      return (acc.applied, deleted, acc.maxUsn)
    else return (acc.applied, 0, acc.maxUsn)

/-- One turn of the consumer: the cursor is stored after a pass that ended well, if that succeeds,
and stays otherwise. -/
def consumerPass (provider : Provider) (reconcile recorded : Bool) (cookie : ℕ) (clock : ℕ → ℕ)
    (s : Session Directory) : ℕ × Directory :=
  match adUsnPass provider reconcile cookie clock s with
  | (.ok (_, _, maxUsn), t) => (if recorded then maxUsn else cookie, t.db)
  | (.error _, t) => (cookie, t.db)

/-! ## The upstream directory -/

inductive AdKind where
  | user | group | other
deriving DecidableEq

structure AdObject where
  kind : AdKind
  dn : String
  guid : String
  usn : ℕ
  objectClasses : List String
  attributes : Attributes
  enabled : Bool
deriving DecidableEq

def AdObject.entry (o : AdObject) : AdEntry :=
  ⟨o.dn, some o.guid, some o.usn, o.objectClasses, o.attributes, o.enabled⟩

def AdObject.toSync (o : AdObject) : SyncEntry := o.entry.toSync o.guid

/-- User accounts and groups, and of these what has changed. -/
def changedFilter (since : ℕ) (o : AdObject) : Bool :=
  o.kind ≠ .other && if 0 < since then since + 1 ≤ o.usn else true

/-- A user or group below the search base. -/
def AdObject.covered (inBase : String → Bool) (o : AdObject) : Bool :=
  inBase o.dn && o.kind ≠ .other

/-- The objects that a pass searches for. -/
def searched (inBase : String → Bool) (upstream : List AdObject) (reconcile : Bool) (lastUsn : ℕ) :
    List AdObject :=
  upstream.filter fun o => inBase o.dn && changedFilter (if reconcile then 0 else lastUsn) o

def PageAnswer.succeeded (a : PageAnswer) : Bool :=
  match a.finish with
  | .done success _ => success
  | _ => false

/-- The page says that there are more. -/
def PageAnswer.continues (a : PageAnswer) : Bool :=
  match a.finish with
  | .done true cookie => cookie.any (· ≠ [])
  | _ => false

/-- The page has exactly the entries of the objects. -/
def PageAnswer.Lists (a : PageAnswer) (objs : List AdObject) : Prop :=
  ∀ e, .entry e ∈ a.items ↔ ∃ o ∈ objs, e = o.entry

/-- The answers of a server that returns the objects in pages of its choice and may fail at any
point. -/
inductive Serves : List AdObject → List PageAnswer → Prop where
  | closed (objs : List AdObject) : Serves objs []
  | failed {objs : List AdObject} {a : PageAnswer} (answers : List PageAnswer)
      (hitems : ∀ e, .entry e ∈ a.items → ∃ o ∈ objs, e = o.entry) (hend : a.succeeded = false) :
      Serves objs (a :: answers)
  | last {objs : List AdObject} {a : PageAnswer} (answers : List PageAnswer)
      (hitems : a.Lists objs) (hend : a.succeeded) (hcookie : a.continues = false) :
      Serves objs (a :: answers)
  | more {objs page later : List AdObject} {a : PageAnswer} {answers : List PageAnswer}
      (hitems : a.Lists page) (hcookie : a.continues) (hpage : ∀ o ∈ page, o ∈ objs)
      (hlater : ∀ o ∈ later, o ∈ objs) (hall : ∀ o ∈ objs, o ∈ page ∨ o ∈ later)
      (rest : Serves later answers) : Serves objs (a :: answers)

/-- All pages up to the limit say that there are more. -/
def CutOff (n : ℕ) (answers : List PageAnswer) : Prop :=
  n ≤ answers.length ∧ ∀ a ∈ answers.take n, a.continues

/-- What stands on the pages up to the first that does not say that there are more, or up to the
limit. -/
def sent : ℕ → List PageAnswer → List SearchItem
  | n + 1, a :: answers => a.items ++ if a.continues then sent n answers else []
  | _, _ => []

/-! ## Reading -/

/-- No DN has lost its record. -/
def Directory.Kept (d t : Directory) : Prop := ∀ dn, d.unmarked dn ≠ none → t.unmarked dn ≠ none

/-- After the objects `done` have been read: they are applied and have been seen, and a record that
is not theirs has the identifier it had. -/
structure Progress (reconcile : Bool) (d : Directory) (done : List AdObject) (acc : Pass)
    (t : Directory) : Prop where
  kept : d.Kept t
  applied : ∀ o ∈ done, o.toSync.Applied t
  source : ∀ dn rec, t.unmarked dn = some rec →
    (∃ o ∈ done, dn = normalizeDn o.dn ∧ rec.sourceUuid = some o.guid) ∨
      ∃ rec₀, d.unmarked dn = some rec₀ ∧ rec₀.sourceUuid = rec.sourceUuid
  seen : reconcile → ∀ g, g ∈ acc.seen ↔ ∃ o ∈ done, o.guid = g

/-- The object is on one of the pages that a pass reads. -/
def Provider.Sends (provider : Provider) (o : AdObject) : Prop :=
  .entry o.entry ∈ sent maxPages provider.answers

/-- Every imported entry whose object is still upstream, unless another object has come to its DN,
has an identifier that is on one of the pages. -/
def Enumerates (provider : Provider) (upstream : List AdObject) (d : Directory) : Prop :=
  ∀ (dn : String) (rec : EntryRecord), d.entries[dn]? = some rec →
    (∀ o ∈ upstream, provider.Sends o → dn ≠ normalizeDn o.dn) →
    ∀ o ∈ upstream, rec.sourceUuid = some o.guid →
      ∃ o' ∈ upstream, provider.Sends o' ∧ o'.guid = o.guid

/-- No two objects have one DN. -/
def DistinctDns (objs : List AdObject) : Prop :=
  ∀ o ∈ objs, ∀ o' ∈ objs, normalizeDn o.dn = normalizeDn o'.dn → o = o'

variable {inBase : String → Bool} {reconcile : Bool} {d t : Directory}
  {done upstream : List AdObject} {acc : Pass}

theorem progress_start (lastUsn : ℕ) : Progress reconcile d [] ⟨0, lastUsn, []⟩ d where
  kept _ h := h
  applied := by simp
  source _ rec h := .inr ⟨rec, h, rfl⟩
  seen := by simp

theorem Progress.apply (h : Progress reconcile d done acc t) {o : AdObject} {t' : Directory}
    (hdistinct : DistinctDns (o :: done)) (ht : AppliedTo t o.toSync t') (applied maxUsn : ℕ) :
    Progress reconcile d (o :: done)
      ⟨applied, maxUsn, if reconcile then o.guid :: acc.seen else acc.seen⟩ t' := by
  obtain ⟨row, hrow, hmatch⟩ := SyncEntry.applied_iff.mp ht.applied
  constructor
  · intro dn hdn
    by_cases he : dn = normalizeDn o.dn
    · subst he
      exact fun hnone => by simp [show t'.unmarked (normalizeDn o.dn) = some row from hrow] at hnone
    · rw [ht.others dn he]
      exact h.kept dn hdn
  · intro x hx
    rcases List.mem_cons.mp hx with rfl | hx
    · exact ht.applied
    · by_cases he : normalizeDn x.dn = normalizeDn o.dn
      · rw [hdistinct x (List.mem_cons_of_mem _ hx) o (List.mem_cons_self ..) he]
        exact ht.applied
      · obtain ⟨rec, hrec, hm⟩ := SyncEntry.applied_iff.mp (h.applied x hx)
        exact SyncEntry.applied_iff.mpr ⟨rec, (ht.others _ he).trans hrec, hm⟩
  · intro dn rec hrec
    by_cases he : dn = normalizeDn o.dn
    · subst he
      obtain rfl := Option.some.inj (hrow.symm.trans hrec)
      exact .inl ⟨o, List.mem_cons_self .., rfl, hmatch.uuid⟩
    · rw [ht.others dn he] at hrec
      exact (h.source dn rec hrec).imp_left fun ⟨x, hx, hu⟩ => ⟨x, List.mem_cons_of_mem _ hx, hu⟩
  · intro hrc g
    simp [hrc, h.seen hrc g, eq_comm]

theorem readEntry_spec (o : AdObject) (hdistinct : DistinctDns (o :: done)) :
    Triple (Progress reconcile d done acc) (readEntry reconcile acc o.entry)
      (fun acc' => Progress reconcile d (o :: done) acc') d.Kept := by
  refine Triple.pointwise fun t ht => ?_
  have happly := (applyLdapSyncEntry_spec o.toSync t).mapError (f := SyncError.db)
  refine (happly.consequence (fun _ h => h) (fun _ _ h => h) fun _ h => h ▸ ht.kept).bind fun _ =>
    Triple.pure fun t' ht' => ?_
  have := ht.apply hdistinct ht' (acc.applied + 1) (max acc.maxUsn o.usn)
  cases reconcile <;> exact this

/-- A page adds the objects that it has entries of. -/
theorem readItems_spec (items : List SearchItem) (hup : DistinctDns upstream)
    (hitems : ∀ e, .entry e ∈ items → ∃ o ∈ upstream, e = o.entry)
    (hdone : ∀ o ∈ done, o ∈ upstream) :
    Triple (Progress reconcile d done acc) (readItems reconcile items acc)
      (fun acc' t => ∃ done', (∀ o, o ∈ done' ↔ o ∈ done ∨ o ∈ upstream ∧ .entry o.entry ∈ items) ∧
        Progress reconcile d done' acc' t)
      d.Kept := by
  induction items generalizing done acc with
  | nil => exact Triple.pure fun t ht => ⟨done, by simp, ht⟩
  | cons item items ih =>
    have hrest : ∀ e, .entry e ∈ items → ∃ o ∈ upstream, e = o.entry := fun e he =>
      hitems e (List.mem_cons_of_mem _ he)
    cases item with
    | other =>
      refine (ih hrest hdone).consequence (fun _ h => h) (fun acc' t h => ?_) fun _ h => h
      obtain ⟨done', hdone', hprog⟩ := h
      exact ⟨done', by simpa using hdone', hprog⟩
    | entry e =>
      obtain ⟨o, ho, rfl⟩ := hitems e (List.mem_cons_self ..)
      have hcons : ∀ x ∈ o :: done, x ∈ upstream := by simpa [ho] using hdone
      refine (readEntry_spec o fun x hx y hy => hup x (hcons x hx) y (hcons y hy)).bind fun acc' => ?_
      refine (ih hrest hcons).consequence (fun _ h => h) (fun acc' t h => ?_) fun _ h => h
      obtain ⟨done', hdone', hprog⟩ := h
      refine ⟨done', fun x => ?_, hprog⟩
      -- an object of the page is the one with the entry
      have hsame : x ∈ upstream → (SearchItem.entry x.entry = .entry o.entry ↔ x = o) := fun hx =>
        ⟨fun he => hup x hx o ho (by
          injection he with he
          rw [show x.dn = o.dn from congrArg AdEntry.dn he]), fun he => by rw [he]⟩
      rw [hdone', List.mem_cons, List.mem_cons]
      constructor
      · rintro ((rfl | hx) | ⟨hx, hmem⟩)
        exacts [.inr ⟨ho, .inl rfl⟩, .inl hx, .inr ⟨hx, .inr hmem⟩]
      · rintro (hx | ⟨hx, he | hmem⟩)
        exacts [.inl (.inr hx), .inl (.inl ((hsame hx).mp he)), .inr ⟨hx, hmem⟩]

/-! ### Pages -/

section Pages

variable {n : ℕ} {a : PageAnswer} {answers : List PageAnswer} {objs : List AdObject}

theorem readPages_failed (h : a.succeeded = false) : ∃ e, readPages reconcile (n + 1) (a :: answers)
    acc = readItems reconcile a.items acc >>= fun _ => .fail e := by
  obtain ⟨items, finish⟩ := a
  cases finish with
  | done success cookie =>
    obtain rfl : success = false := h
    exact ⟨.searchRejected, rfl⟩
  | closed => exact ⟨.connectionClosed, rfl⟩
  | broken => exact ⟨.io, rfl⟩

theorem readPages_succeeded (h : a.succeeded) : readPages reconcile (n + 1) (a :: answers) acc =
    readItems reconcile a.items acc >>= fun acc =>
      if a.continues then readPages reconcile n answers acc else return acc := by
  obtain ⟨items, finish⟩ := a
  cases finish with
  | done success cookie =>
    obtain rfl : success = true := h
    rfl
  | closed => cases h
  | broken => cases h

theorem PageAnswer.succeeded_of_continues (h : a.continues) : a.succeeded := by
  obtain ⟨items, finish⟩ := a
  cases finish with
  | done success cookie =>
    cases success with
    | true => rfl
    | false => cases h
  | closed => cases h
  | broken => cases h

/-- Whatever a page is, its entries are of objects. -/
theorem Serves.entry_mem (h : Serves objs (a :: answers)) {e : AdEntry} (he : .entry e ∈ a.items) :
    ∃ o ∈ objs, e = o.entry := by
  cases h with
  | failed _ hitems _ => exact hitems e he
  | last _ hl _ _ => exact (hl e).mp he
  | more hl _ hpage _ _ _ =>
    obtain ⟨o, ho, heq⟩ := (hl e).mp he
    exact ⟨o, hpage o ho, heq⟩

/-- A search that comes to an end applies what is sent, which is all objects if it is not cut
off. -/
theorem readPages_spec (hserves : Serves objs answers) (hup : DistinctDns upstream)
    (hobjs : ∀ o ∈ objs, o ∈ upstream) (hdone : ∀ o ∈ done, o ∈ upstream) :
    Triple (Progress reconcile d done acc) (readPages reconcile n answers acc)
      (fun acc' t => ∃ done',
        (∀ o, o ∈ done' ↔ o ∈ done ∨ o ∈ upstream ∧ .entry o.entry ∈ sent n answers) ∧
        (¬ CutOff n answers → ∀ o ∈ objs, .entry o.entry ∈ sent n answers) ∧
        Progress reconcile d done' acc' t)
      d.Kept := by
  induction n generalizing answers objs done acc with
  | zero =>
    refine Triple.pure fun t ht => ⟨done, by simp [sent], fun hlimit => ?_, ht⟩
    exact absurd ⟨Nat.zero_le _, by simp⟩ hlimit
  | succ n ih =>
    cases answers with
    | nil => exact Triple.fail fun t ht => ht.kept
    | cons a answers =>
      have hread : Triple (Progress reconcile d done acc) _ _ _ := readItems_spec a.items hup
        (fun e he => (hserves.entry_mem he).imp fun o ho => ⟨hobjs o ho.1, ho.2⟩) hdone
      cases hserves with
      | failed _ _ hend =>
        obtain ⟨e, he⟩ := readPages_failed hend
        rw [he]
        exact hread.bind fun _ => Triple.fail fun t ⟨_, _, hprog⟩ => hprog.kept
      | last _ hl hend hcookie =>
        rw [readPages_succeeded hend, hcookie]
        refine hread.bind fun acc' => Triple.pure fun t ⟨done₁, hdone₁, hprog⟩ => ?_
        have hsent : sent (n + 1) (a :: answers) = a.items := by simp [sent, hcookie]
        rw [hsent]
        exact ⟨done₁, hdone₁, fun _ o ho => (hl _).mpr ⟨o, ho, rfl⟩, hprog⟩
      | more hl hcookie hpage hlater hall rest =>
        rw [readPages_succeeded (PageAnswer.succeeded_of_continues hcookie), hcookie]
        refine hread.bind fun acc' => Triple.pointwise ?_
        rintro t ⟨done₁, hdone₁, hprog⟩
        have hone : ∀ o ∈ done₁, o ∈ upstream := fun o ho =>
          ((hdone₁ o).mp ho).elim (hdone o) And.left
        refine (ih rest (fun o ho => hobjs o (hlater o ho)) hone).consequence
          (fun s hs => hs ▸ hprog) (fun acc'' s h => ?_) fun _ h => h
        obtain ⟨done₂, hdone₂, hall₂, hprog₂⟩ := h
        have hsent : sent (n + 1) (a :: answers) = a.items ++ sent n answers := by
          simp [sent, hcookie]
        rw [hsent]
        refine ⟨done₂, fun o => ?_, fun hlimit o ho => ?_, hprog₂⟩
        · rw [hdone₂, hdone₁, List.mem_append]
          tauto
        · have hlimit' : ¬ CutOff n answers := fun ⟨hlen, hmore⟩ =>
            hlimit ⟨Nat.succ_le_succ hlen, by simpa [hcookie] using hmore⟩
          rcases hall o ho with ho | ho
          · exact List.mem_append_left _ ((hl _).mpr ⟨o, ho, rfl⟩)
          · exact List.mem_append_right _ (hall₂ hlimit' o ho)

end Pages

/-! ## Removing -/

/-- The records that are left are as they were, and those that are gone had not been seen. -/
def Unseen (seen : List String) (d t : Directory) : Prop :=
  ∀ dn : String, t.entries[dn]? = d.entries[dn]? ∨ t.entries[dn]? = none ∧
    ∃ rec u, d.entries[dn]? = some rec ∧ EntryRecord.sourceUuid rec = some u ∧ u ∉ seen

theorem Unseen.trans {seen : List String} {t u : Directory} (h : Unseen seen d t)
    (h' : Unseen seen t u) : Unseen seen d u := by
  intro dn
  rcases h dn with he | ⟨hnone, hrec⟩
  · exact he ▸ h' dn
  · refine .inr ⟨?_, hrec⟩
    rcases h' dn with he' | ⟨hnone', -⟩
    · exact he'.trans hnone
    · exact hnone'

/-- No record has the identifier. -/
def Directory.Lacks (t : Directory) (uuid : String) : Prop :=
  ∀ (dn : String) (rec : EntryRecord), t.entries[dn]? = some rec → rec.sourceUuid ≠ some uuid

theorem Unseen.lacks {seen : List String} {t u : Directory} (h : Unseen seen t u) {uuid : String}
    (hlacks : t.Lacks uuid) : u.Lacks uuid := by
  intro dn rec hrec
  rcases h dn with he | ⟨hnone, -⟩
  · exact hlacks dn rec (he ▸ hrec)
  · simp [hnone] at hrec

theorem Withdrawn.unseen {seen : List String} {uuid : String} (h : Withdrawn d uuid t)
    (hseen : uuid ∉ seen) : Unseen seen d t ∧ t.Lacks uuid := by
  refine ⟨fun dn => ?_, fun dn rec hrec hu => ?_⟩
  · rw [h dn]
    cases hrec : d.entries[dn]? with
    | none => exact .inl rfl
    | some rec =>
      by_cases hu : rec.sourceUuid = some uuid
      · exact .inr ⟨by simp [hu], rec, uuid, rfl, hu, hseen⟩
      · exact .inl (by simp [hu])
  · have := h dn ▸ hrec
    simp [Option.filter_eq_some_iff, hu] at this

/-- When it ends well, of the identifiers only those that have been seen are left. -/
theorem dropUnseen_spec (seen uuids : List String) (deleted : ℕ) (d : Directory) :
    Triple (· = d) (dropUnseen seen uuids deleted)
      (fun _ t => Unseen seen d t ∧ ∀ u ∈ uuids, u ∉ seen → t.Lacks u) (Unseen seen d) := by
  induction uuids generalizing deleted d with
  | nil => exact Triple.pure fun t h => ⟨fun _ => .inl (by rw [h]), by simp⟩
  | cons uuid uuids ih =>
    unfold dropUnseen
    split_ifs with hseen
    · refine (ih deleted d).consequence (fun _ h => h) (fun _ t h => ⟨h.1, fun u hu hun => ?_⟩)
        fun _ h => h
      rcases List.mem_cons.mp hu with rfl | hu
      · exact absurd hseen hun
      · exact h.2 u hu hun
    · refine (((applyLdapSyncDelete_spec uuid d).mapError (f := SyncError.db)).consequence
        (fun _ h => h) (fun _ _ h => h) fun t h _ => .inl (by rw [h])).bind fun gone =>
        Triple.pointwise fun t ht => ?_
      obtain ⟨hunseen, hlacks⟩ := ht.unseen hseen
      refine (ih _ t).consequence (fun _ h => h)
        (fun _ t' h => ⟨hunseen.trans h.1, fun u hu hun => ?_⟩)
        fun t' h => hunseen.trans h
      rcases List.mem_cons.mp hu with rfl | hu
      · exact h.1.lacks hlacks
      · exact h.2 u hu hun

/-! ## A pass -/

/-- What is removed is not upstream any more. -/
def RemovesOnlyGone (upstream : List AdObject) (d t : Directory) : Prop :=
  ∀ (dn : String) (rec : EntryRecord), d.entries[dn]? = some rec → t.entries[dn]? = none →
    ∃ u, rec.sourceUuid = some u ∧ ∀ o ∈ upstream, o.guid ≠ u

theorem unmarked_eq_none {dn : String} : d.unmarked dn = none ↔ d.entries[dn]? = none := by
  simp [Directory.unmarked]

theorem Directory.Kept.removes (h : d.Kept t) : RemovesOnlyGone upstream d t := by
  intro dn rec hrec hnone
  refine absurd (unmarked_eq_none.mpr hnone) (h dn fun hn => ?_)
  rw [unmarked_eq_none] at hn
  simp [hrec] at hn

section Reconcile

variable {provider : Provider} {t' : Directory} (h : Progress true d done acc t)
  (hdone : ∀ o, o ∈ done ↔ o ∈ upstream ∧ provider.Sends o) (hdrop : Unseen acc.seen t t')
include h hdone hdrop

/-- If what is upstream has been sent, what has not been seen is gone. -/
theorem Progress.removes (henum : Enumerates provider upstream d) :
    RemovesOnlyGone upstream d t' := by
  intro dn rec hrec hnone
  rcases hdrop dn with hsame | ⟨-, row, u, hrow, hu, hseen⟩
  · exact h.kept.removes dn rec hrec (hsame.symm.trans hnone)
  · have hfree : ∀ o ∈ done, o.guid ≠ u := fun o ho hg =>
      hseen ((h.seen rfl u).mpr ⟨o, ho, hg⟩)
    have hunmarked : t.unmarked dn = some { row with hasChildren := false } := by
      simp [Directory.unmarked, hrow]
    rcases h.source dn _ hunmarked with ⟨o, ho, -, hg⟩ | ⟨rec₀, hrec₀, hg⟩
    · exact absurd (Option.some.inj (hg.symm.trans hu)) (hfree o ho)
    · obtain rfl : { rec with hasChildren := false } = rec₀ := by
        simpa [Directory.unmarked, hrec] using hrec₀
      refine ⟨u, hg.trans hu, fun o ho hguid => ?_⟩
      have hother : ∀ o ∈ upstream, provider.Sends o → dn ≠ normalizeDn o.dn := by
        rintro o ho hsends rfl
        have hmem := (hdone o).mpr ⟨ho, hsends⟩
        obtain ⟨row', hrow', hmatch⟩ := h.applied o hmem
        obtain rfl := Option.some.inj (hrow.symm.trans hrow')
        exact hfree o hmem (Option.some.inj (hmatch.uuid.symm.trans hu))
      obtain ⟨o', ho', hsends, hg'⟩ := henum dn rec hrec hother o ho (hguid ▸ hg.trans hu)
      exact hfree o' ((hdone o').mpr ⟨ho', hsends⟩) (hg'.trans hguid)

/-- If all that has not been seen is gone, it must not be upstream. -/
theorem Progress.enumerates (hlacks : ∀ u, ¬ t.Lacks u → u ∉ acc.seen → t'.Lacks u)
    (hremoves : RemovesOnlyGone upstream d t') : Enumerates provider upstream d := by
  intro dn rec hrec hother o ho hu
  by_contra hnone
  have hunseen : o.guid ∉ acc.seen := by
    rw [h.seen rfl]
    rintro ⟨o', ho', hg⟩
    obtain ⟨hup, hsends⟩ := (hdone o').mp ho'
    exact hnone ⟨o', hup, hsends, hg⟩
  -- the entry still has the identifier when the removal starts
  obtain ⟨row, hrow, huuid⟩ : ∃ row : EntryRecord, t.entries[dn]? = some row ∧
      row.sourceUuid = some o.guid := by
    have hkept := h.kept dn (by simp [Directory.unmarked, hrec])
    cases hrow : t.entries[dn]? with
    | none => simp [Directory.unmarked, hrow] at hkept
    | some row =>
      refine ⟨row, rfl, ?_⟩
      have hunmarked : t.unmarked dn = some { row with hasChildren := false } := by
        simp [Directory.unmarked, hrow]
      rcases h.source dn _ hunmarked with ⟨o', ho', hdn, -⟩ | ⟨rec₀, hrec₀, hg⟩
      · obtain ⟨hup, hsends⟩ := (hdone o').mp ho'
        exact absurd hdn (hother o' hup hsends)
      · obtain rfl : { rec with hasChildren := false } = rec₀ := by
          simpa [Directory.unmarked, hrec] using hrec₀
        exact hg.symm.trans hu
  have hgone := hlacks o.guid (fun hl => hl dn row hrow huuid) hunseen
  rcases hdrop dn with hsame | ⟨hnil, -⟩
  · exact hgone dn row (hsame.trans hrow) huuid
  · obtain ⟨u, hu', hfree⟩ := hremoves dn rec hrec hnil
    exact hfree o ho (Option.some.inj (hu.symm.trans hu'))

end Reconcile

theorem Progress.stays (h : Progress true d done acc t) {t' : Directory}
    (hdrop : Unseen acc.seen t t') {o : AdObject} (ho : o ∈ done) : o.toSync.Applied t' := by
  obtain ⟨rec, hrec, hmatch⟩ := h.applied o ho
  rcases hdrop (normalizeDn o.dn) with hsame | ⟨-, row, u, hrow, hu, hseen⟩
  · exact ⟨rec, hsame.trans hrec, hmatch⟩
  · obtain rfl := Option.some.inj (hrow.symm.trans hrec)
    have hg : o.guid = u := Option.some.inj (hmatch.uuid.symm.trans hu)
    exact absurd ((h.seen rfl u).mpr ⟨o, ho, hg⟩) hseen

theorem mem_searched {lastUsn : ℕ} {o : AdObject}
    (h : o ∈ searched inBase upstream reconcile lastUsn) :
    o ∈ upstream :=
  List.mem_of_mem_filter h

theorem mem_searched_of_changed {lastUsn : ℕ} {o : AdObject} (ho : o ∈ upstream)
    (hcov : o.covered inBase) (hlt : lastUsn < o.usn) :
    o ∈ searched inBase upstream reconcile lastUsn := by
  obtain ⟨hbase, hkind⟩ : inBase o.dn = true ∧ o.kind ≠ .other := by
    simpa [AdObject.covered] using hcov
  refine List.mem_filter.mpr ⟨ho, ?_⟩
  simp only [hbase, changedFilter, hkind, Bool.true_and, ne_eq, not_false_eq_true, decide_true]
  split_ifs <;> simp <;> omega

/-- The removal of what has not been seen. -/
theorem reconcile_spec (acc : Pass) (t : Directory) :
    Triple (· = t) (do
        let uuids ← Db.ldapImportedUuids.mapError SyncError.db
        let deleted ← dropUnseen acc.seen uuids 0
        return (acc.applied, deleted, acc.maxUsn))
      (fun _ t' => Unseen acc.seen t t' ∧ ∀ u, ¬ t.Lacks u → u ∉ acc.seen → t'.Lacks u)
      (Unseen acc.seen t) := by
  have huuids : Triple (· = t) (Db.ldapImportedUuids.mapError SyncError.db)
      (fun uuids t' => t' = t ∧ uuids = t.entries.toList.filterMap (·.2.sourceUuid)) (· = t) :=
    (Triple.read (fun _ h => ⟨h, by rw [h]⟩) fun _ h => h).mapError
  refine (huuids.consequence (fun _ h => h) (fun _ _ h => h) fun t' h _ => .inl (by rw [h])).bind
    fun uuids => Triple.assuming ?_
  rintro rfl
  refine (dropUnseen_spec acc.seen _ 0 t).bind fun _ => Triple.pure fun t' h => ⟨h.1, fun u hu => ?_⟩
  refine h.2 u (List.mem_filterMap.mpr ?_)
  obtain ⟨dn, rec, hrec, huuid⟩ : ∃ (dn : String) (rec : EntryRecord),
      t.entries[dn]? = some rec ∧ rec.sourceUuid = some u := by
    simpa [Directory.Lacks] using hu
  exact ⟨(dn, rec), Std.ExtTreeMap.mem_toList_iff_getElem?_eq_some.mpr hrec, huuid⟩

/-- The search comes to an end: the last page is read, or the limit is reached. -/
def Provider.Searched (provider : Provider) (reconcile : Bool) (lastUsn : ℕ) (clock : ℕ → ℕ)
    (s : Session Directory) : Prop :=
  provider.bound = true ∧
    (readPages reconcile maxPages provider.answers ⟨0, lastUsn, []⟩ clock s).1.isOk

/-- How a pass goes: it fails before the search has come to an end and has removed nothing, or it
has applied what was sent and then removes what it has not seen. -/
theorem adUsnPass_cases {provider : Provider} {lastUsn : ℕ} (hup : DistinctDns upstream)
    (hserves : Serves (searched inBase upstream reconcile lastUsn) provider.answers)
    (clock : ℕ → ℕ) (s : Session Directory) :
    let run := adUsnPass provider reconcile lastUsn clock s
    (¬ provider.Searched reconcile lastUsn clock s ∧ run.1.isOk = false ∧ s.db.Kept run.2.db) ∨
    ∃ acc t done, provider.Searched reconcile lastUsn clock s ∧
      Progress reconcile s.db done acc t ∧ (∀ o, o ∈ done ↔ o ∈ upstream ∧ provider.Sends o) ∧
      (¬ CutOff maxPages provider.answers →
        ∀ o ∈ searched inBase upstream reconcile lastUsn, provider.Sends o) ∧
      if reconcile = true ∧ acc.seen ≠ [] then
        Unseen acc.seen t run.2.db ∧
          (run.1.isOk → ∀ u, ¬ t.Lacks u → u ∉ acc.seen → run.2.db.Lacks u)
      else run.2.db = t := by
  dsimp only
  by_cases hbound : provider.bound = true
  · have hread : Triple (Progress reconcile s.db [] ⟨0, lastUsn, []⟩) _ _ s.db.Kept :=
      readPages_spec (n := maxPages) hserves hup (fun _ => mem_searched) (by simp)
    have hrun := hread.run clock s (progress_start lastUsn)
    rcases heq : readPages reconcile maxPages provider.answers ⟨0, lastUsn, []⟩ clock s with ⟨r, t⟩
    rw [heq] at hrun
    cases r with
    | error e =>
      have hpass : adUsnPass provider reconcile lastUsn clock s = (.error e, t) := by
        simp [adUsnPass, hbound, Bind.bind, StoreM.andThen, heq]
      rw [hpass]
      exact .inl ⟨fun h => by simpa [heq, Except.isOk, Except.toBool] using h.2, rfl, hrun⟩
    | ok acc =>
      obtain ⟨done, hdone, hall, hprog⟩ := hrun
      refine .inr ⟨acc, t.db, done, ⟨hbound, by rw [heq]; rfl⟩, hprog,
        by simpa [Provider.Sends] using hdone, hall, ?_⟩
      have hpass : adUsnPass provider reconcile lastUsn clock s =
          (if reconcile && acc.seen ≠ [] then do
            let uuids ← Db.ldapImportedUuids.mapError SyncError.db
            let deleted ← dropUnseen acc.seen uuids 0
            return (acc.applied, deleted, acc.maxUsn)
          else return (acc.applied, 0, acc.maxUsn) : SyncM (ℕ × ℕ × ℕ)) clock t := by
        rw [adUsnPass, if_neg (by simp [hbound])]
        simp only [Bind.bind, StoreM.andThen, heq]
      by_cases hrc : reconcile = true ∧ acc.seen ≠ []
      · rw [if_pos hrc]
        rw [if_pos (by simpa using hrc)] at hpass
        have hdrop := (reconcile_spec acc t.db).run clock t rfl
        rw [← hpass] at hdrop
        rcases hout : adUsnPass provider reconcile lastUsn clock s with ⟨_ | r, u⟩
        · rw [hout] at hdrop
          exact ⟨hdrop, fun h => by cases h⟩
        · rw [hout] at hdrop
          exact ⟨hdrop.1, fun _ => hdrop.2⟩
      · rw [if_neg hrc]
        rw [if_neg (by simpa using hrc)] at hpass
        rw [hpass]
        rfl
  · have hpass : adUsnPass provider reconcile lastUsn clock s = (.error .bindFailed, s) := by
      simp [adUsnPass, hbound, StoreM.fail]
    rw [hpass]
    exact .inl ⟨fun h => hbound h.1, rfl, fun _ h => h⟩

section Sample

def alice : AdObject := ⟨.user, "CN=Alice,DC=example", "a1", 5, ["top", "inetOrgPerson"], ∅, true⟩

def bob : AdObject := ⟨.user, "CN=Bob,DC=example", "b2", 3, ["top", "inetOrgPerson"], ∅, true⟩

def carol : AdObject := ⟨.user, "CN=Carol,DC=example", "c3", 4, ["top", "inetOrgPerson"], ∅, true⟩

def staff : AdObject := ⟨.other, "OU=Staff,DC=example", "d4", 2,
    ["top", "organizationalUnit"], ∅, true⟩

/-- A directory with imported objects. -/
def importing (objs : List AdObject) : Directory :=
  objs.foldl (fun d o => ((Db.applyLdapSyncEntry o.toSync) id ⟨d, [], 0⟩).2.db) ⟨∅, [], []⟩

def pageOf (objs : List AdObject) (cookie : Option (List UInt8)) : PageAnswer :=
  ⟨objs.map (.entry ·.entry), .done true cookie⟩

theorem pageOf_lists (objs : List AdObject) (cookie : Option (List UInt8)) :
    (pageOf objs cookie).Lists objs := by
  simp [pageOf, PageAnswer.Lists, eq_comm]

/-- A page with nothing on it and a cookie. -/
def blankPage : PageAnswer := pageOf [] (some [1])

/-- Alice, then blank pages up to the limit, then Bob. -/
def longSearch : List PageAnswer :=
  pageOf [alice] (some [1]) :: (List.replicate 99999 blankPage ++ [pageOf [bob] none])

theorem serves_blank {objs : List AdObject} {answers : List PageAnswer} (h : Serves objs answers)
    (n : ℕ) : Serves objs (List.replicate n blankPage ++ answers) := by
  induction n with
  | zero => exact h
  | succ n ih =>
    exact .more (pageOf_lists [] _) rfl (by simp) (fun _ ho => ho) (fun _ ho => .inr ho) ih

def anywhere (_ : String) : Bool := true

theorem serves_longSearch : Serves (searched anywhere [alice, bob] true 0) longSearch := by
  rw [show searched anywhere [alice, bob] true 0 = [alice, bob] by decide +kernel]
  exact .more (pageOf_lists [alice] _) rfl (by simp) (by simp) (by simp)
    (serves_blank (.last [] (pageOf_lists [bob] _) rfl rfl) 99999)

theorem readPages_blank (reconcile : Bool) (n : ℕ) (answers : List PageAnswer) (acc : Pass) :
    readPages reconcile n (List.replicate n blankPage ++ answers) acc = pure acc := by
  induction n with
  | zero => rfl
  | succ n ih => exact ih

theorem readPages_cut (n : ℕ) (objs : List AdObject) (answers : List PageAnswer) (acc : Pass) :
    readPages true (n + 1)
        (pageOf objs (some [1]) :: (List.replicate n blankPage ++ answers)) acc =
      readItems true (pageOf objs (some [1])).items acc >>= fun acc => pure acc := by
  have hstep : readPages true (n + 1)
      (pageOf objs (some [1]) :: (List.replicate n blankPage ++ answers)) acc =
      readItems true (pageOf objs (some [1])).items acc >>= fun acc =>
        readPages true n (List.replicate n blankPage ++ answers) acc := rfl
  rw [hstep]
  simp only [readPages_blank]

/-- What is left of a pass whose search has only blank pages after the first. -/
theorem consumerPass_cut {n : ℕ} (hn : maxPages = n + 1) (objs : List AdObject)
    (answers : List PageAnswer) (d : Directory) :
    consumerPass ⟨true, pageOf objs (some [1]) :: (List.replicate n blankPage ++ answers)⟩ true true
        0 id ⟨d, [], 0⟩ =
      consumerPass ⟨true, [pageOf objs none]⟩ true true 0 id ⟨d, [], 0⟩ := by
  have hshort : readPages true (n + 1) [pageOf objs none] ⟨0, 0, []⟩ =
      readItems true (pageOf objs none).items ⟨0, 0, []⟩ >>= fun acc => pure acc := rfl
  have hitems : (pageOf objs none).items = (pageOf objs (some [1])).items := rfl
  simp only [consumerPass, adUsnPass, hn, readPages_cut, hshort, hitems]

def shortSearch : List PageAnswer := [pageOf [alice] (some [1]), pageOf [bob] none]

end Sample

end Magnetite.Ldap
