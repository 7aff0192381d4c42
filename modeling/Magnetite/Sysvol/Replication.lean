import Mathlib
import Magnetite.Lib.LastWriter
import Magnetite.Lib.Rows

/-!
# Replication of SYSVOL files

Every node keeps one row for each path, a file or the tombstone of a deleted one, with a version
and the time of the change. A row from another node takes the place of the node's own if it has a
higher version, or the same version and a later time. Rows that agree in both are left alone on
either side, so that two nodes agree after exchanging their rows exactly if no path has two such
rows with different contents.
-/
namespace Magnetite.Sysvol

open Lib LastWriter

/-- A file, or a tombstone when `deleted`. -/
structure SysvolFile where
  path : String
  content : List UInt8
  version : ℤ
  deleted : Bool
  updatedAt : ℕ
deriving DecidableEq

/-- What conflicts are decided by. -/
def SysvolFile.stamp (f : SysvolFile) : ℤ ×ₗ ℕ := toLex (f.version, f.updatedAt)

def SysvolFile.wins (self other : SysvolFile) : Bool := other.stamp < self.stamp

/-- The table of a node, unique by path. -/
structure Share where
  rows : List SysvolFile
  unique : (rows.map (·.path)).Nodup

def findSysvol (path : String) (s : Share) : Option SysvolFile := s.rows.find? (·.path = path)

theorem Share.unique_update (rec : SysvolFile) (s : Share) :
    ((Rows.update (·.path) rec.path (fun _ => rec) s.rows).map (·.path)).Nodup := by
  have hpaths : (Rows.update (·.path) rec.path (fun _ => rec) s.rows).map (·.path) =
      s.rows.map (·.path) := by
    simp only [Rows.update, List.map_map]
    refine List.map_congr_left fun f _ => ?_
    grind
  exact hpaths ▸ s.unique

theorem Share.unique_append {rec : SysvolFile} {s : Share} (h : rec.path ∉ s.rows.map (·.path)) :
    ((s.rows ++ [rec]).map (·.path)).Nodup := by
  simpa [List.nodup_append, s.unique] using h

/-- `UPSERT` by the path. -/
def writeSysvol (rec : SysvolFile) (s : Share) : Share :=
  if h : rec.path ∈ s.rows.map (·.path) then
    { rows := Rows.update (·.path) rec.path (fun _ => rec) s.rows
      unique := s.unique_update rec }
  else
    { rows := s.rows ++ [rec]
      unique := Share.unique_append h }

/-- Unchanged content is left as it is. -/
def upsertSysvolFile (path : String) (content : List UInt8) (now : ℕ) (s : Share) : Share :=
  let existing := findSysvol path s
  if existing.any fun rec => !rec.deleted && rec.content == content then s
  else writeSysvol
    { path
      content
      version := existing.elim 1 (·.version + 1)
      deleted := false
      updatedAt := now } s

/-- Leaves a tombstone, unless there is nothing to delete. -/
def deleteSysvolFile (path : String) (now : ℕ) (s : Share) : Share :=
  match findSysvol path s with
  | none => s
  | some rec =>
    if rec.deleted then s
    else writeSysvol
      { path
        content := []
        version := rec.version + 1
        deleted := true
        updatedAt := now } s

/-- Rows are served by time, then by path. -/
def SysvolFile.position (f : SysvolFile) : ℕ ×ₗ String := toLex (f.updatedAt, f.path)

/-- The rows beyond the cursor, oldest first, and at most `limit` of them; the cursor to go on
with. -/
def sysvolFeed (cursor : Option (ℕ ×ₗ String)) (limit : ℕ) (s : Share) :
    List SysvolFile × Option (ℕ ×ₗ String) :=
  let files := Feed.page SysvolFile.position cursor limit s.rows
  (files, Feed.advance SysvolFile.position cursor files)

/-- Whether the row was applied, and the table. -/
def applyReplicatedSysvolFile (incoming : SysvolFile) (s : Share) : Bool × Share :=
  if (findSysvol incoming.path s).any fun current => !incoming.wins current then (false, s)
  else (true, writeSysvol incoming s)

variable {s t u : Share} {feed : List SysvolFile} {path : String}

/-! ## Rows by path -/

theorem findSysvol_eq_some {f : SysvolFile} :
    findSysvol path s = some f ↔ f ∈ s.rows ∧ f.path = path := by
  constructor
  · exact fun h => ⟨List.mem_of_find?_eq_some h, by simpa using List.find?_some h⟩
  · rintro ⟨hmem, rfl⟩
    cases hfind : findSysvol f.path s with
    | none => exact absurd (List.find?_eq_none.mp hfind f hmem) (by simp)
    | some g =>
      have hg : g.path = f.path := by simpa using List.find?_some hfind
      rw [List.inj_on_of_nodup_map s.unique (List.mem_of_find?_eq_some hfind) hmem hg]

theorem mem_writeSysvol {rec f : SysvolFile} :
    f ∈ (writeSysvol rec s).rows ↔ f = rec ∨ f ∈ s.rows ∧ f.path ≠ rec.path := by
  unfold writeSysvol
  split_ifs with h
  · obtain ⟨g, hg, hpath⟩ := List.mem_map.mp h
    rw [Rows.mem_update]
    exact or_congr ⟨fun ⟨_, _, _, e⟩ => e, fun e => ⟨g, hg, hpath, e⟩⟩ Iff.rfl
  · have hfresh : ∀ g ∈ s.rows, g.path ≠ rec.path := fun g hg e =>
      h (e ▸ List.mem_map_of_mem hg)
    simp only [List.mem_append, List.mem_singleton]
    exact ⟨fun hf => hf.symm.imp_right fun hf => ⟨hf, hfresh f hf⟩,
      fun hf => hf.symm.imp_left And.left⟩

@[simp] theorem findSysvol_writeSysvol (rec : SysvolFile) (s : Share) (path : String) :
    findSysvol path (writeSysvol rec s) =
      if rec.path = path then some rec else findSysvol path s := by
  ext f
  rw [findSysvol_eq_some, mem_writeSysvol]
  split_ifs with h
  · subst h
    simp only [Option.some.injEq]
    grind
  · rw [findSysvol_eq_some]
    grind

/-- The row of the path becomes the later one of the row and the incoming one. -/
theorem findSysvol_apply (incoming : SysvolFile) (s : Share) (path : String) :
    findSysvol path (applyReplicatedSysvolFile incoming s).2 =
      if incoming.path = path then latest SysvolFile.stamp (findSysvol path s) incoming
      else findSysvol path s := by
  unfold applyReplicatedSysvolFile latest SysvolFile.wins
  by_cases hpath : incoming.path = path
  · subst hpath
    cases hheld : findSysvol incoming.path s with
    | none => simp
    | some held => by_cases hlt : held.stamp < incoming.stamp <;> simp [hlt, hheld]
  · rw [if_neg hpath]
    split_ifs <;> simp [hpath]

/-! ## A whole feed -/

def applyAll (feed : List SysvolFile) (s : Share) : Share :=
  feed.foldl (fun s f => (applyReplicatedSysvolFile f s).2) s

/-- Rows of other paths do not matter. -/
theorem findSysvol_applyAll (feed : List SysvolFile) (s : Share) (path : String) :
    findSysvol path (applyAll feed s) =
      (feed.filter (·.path = path)).foldl (latest SysvolFile.stamp) (findSysvol path s) := by
  induction feed generalizing s with
  | nil => rfl
  | cons f feed ih =>
    rw [applyAll, List.foldl_cons, ← applyAll, ih, findSysvol_apply]
    by_cases h : f.path = path <;> simp [h]

/-- All rows of the other node and no others, in any order and as often as one likes. -/
def IsFullFeed (feed : List SysvolFile) (s : Share) : Prop := ∀ f, f ∈ feed ↔ f ∈ s.rows

/-- The feed from the start, if nothing is cut off. -/
theorem isFullFeed_sysvolFeed {limit : ℕ} (h : s.rows.length ≤ limit) :
    IsFullFeed (sysvolFeed none limit s).1 s := by
  intro f
  rw [sysvolFeed, Feed.page, List.take_of_length_le]
  · simp [List.mem_insertionSort, Feed.beyond]
  · rw [List.length_insertionSort]
    exact (List.length_filter_le _ _).trans h

/-- A path ends with the later one of the two rows, and with the node's own where they tie. -/
theorem findSysvol_applyAll_full (hfeed : IsFullFeed feed u) (s : Share) (path : String) :
    findSysvol path (applyAll feed s) =
      (findSysvol path u).toList.foldl (latest SysvolFile.stamp) (findSysvol path s) := by
  have hmem : ∀ f, f ∈ feed.filter (·.path = path) ↔ findSysvol path u = some f := fun f => by
    rw [List.mem_filter, hfeed f, findSysvol_eq_some, decide_eq_true_eq]
  rw [findSysvol_applyAll]
  refine foldl_latest_congr (fun f => (hmem f).trans (by simp)) fun f hf g hg _ => ?_
  exact Option.some.inj (((hmem f).mp hf).symm.trans ((hmem g).mp hg))

/-! ## Agreement -/

/-- What is at a path: nothing yet, nothing any more, or a file. -/
def SysvolFile.body (f : SysvolFile) : Option (List UInt8) :=
  if f.deleted then none else some f.content

def Share.view (s : Share) (path : String) : Option (Option (List UInt8)) :=
  (findSysvol path s).map SysvolFile.body

/-- Rows of one path that tie have the same body. -/
def TiesAgree (s t : Share) : Prop :=
  ∀ f ∈ s.rows, ∀ g ∈ t.rows, f.path = g.path → f.stamp = g.stamp → f.body = g.body

theorem tiesAgree_iff : TiesAgree s t ↔ ∀ path, ∀ f ∈ findSysvol path s, ∀ g ∈ findSysvol path t,
    f.stamp = g.stamp → f.body = g.body := by
  simp only [Option.mem_def, findSysvol_eq_some]
  constructor
  · rintro h path f ⟨hf, rfl⟩ g ⟨hg, hpath⟩
    exact h f hf g hg hpath.symm
  · intro h f hf g hg hpath
    exact h f.path f ⟨hf, rfl⟩ g ⟨hg, hpath.symm⟩

/-- The row the first of two nodes ends with. -/
def merged (own other : Option SysvolFile) : Option SysvolFile :=
  other.toList.foldl (latest SysvolFile.stamp) own

theorem merged_agree_iff (x y : Option SysvolFile) :
    (merged x y).map SysvolFile.body = (merged y x).map SysvolFile.body ↔
      ∀ f ∈ x, ∀ g ∈ y, f.stamp = g.stamp → f.body = g.body := by
  cases x with
  | none => cases y <;> simp [merged, latest]
  | some f =>
    cases y with
    | none => simp [merged, latest]
    | some g =>
      rcases lt_trichotomy f.stamp g.stamp with h | h | h
      · simp [merged, latest, h, h.not_gt, h.ne]
      · simp [merged, latest, h]
      · simp [merged, latest, h, h.not_gt, h.ne']

/-- It makes no difference whether the other node has merged before. -/
theorem merged_merged (x y : Option SysvolFile) : merged y (merged x y) = merged y x := by
  cases x with
  | none => cases y <;> simp [merged, latest]
  | some f =>
    cases y with
    | none => simp [merged, latest]
    | some g =>
      rcases lt_or_ge f.stamp g.stamp with h | h
      · simp [merged, latest, h, h.not_gt]
      · simp [merged, latest, h.not_gt]

/-! ## Histories -/

inductive Edit where
  | upsert (path : String) (content : List UInt8) (now : ℕ)
  | delete (path : String) (now : ℕ)

def Edit.exec (s : Share) : Edit → Share
  | upsert path content now => upsertSysvolFile path content now s
  | delete path now => deleteSysvolFile path now s

/-- Two nodes edit their files and exchange feeds, of which the second may be taken before or after
the first has been applied. They then have the same files and the same deletions exactly if the
rows that tied agreed. -/
theorem sysvol_converges_iff (s t : Share) (edits edits' : List Edit)
    {feed feed' : List SysvolFile} (hfeed' : IsFullFeed feed' (edits'.foldl Edit.exec t))
    (hfeed : IsFullFeed feed (edits.foldl Edit.exec s) ∨
      IsFullFeed feed (applyAll feed' (edits.foldl Edit.exec s))) :
    (applyAll feed' (edits.foldl Edit.exec s)).view =
      (applyAll feed (edits'.foldl Edit.exec t)).view ↔
      TiesAgree (edits.foldl Edit.exec s) (edits'.foldl Edit.exec t) := by
  rw [tiesAgree_iff, funext_iff]
  refine forall_congr' fun path => ?_
  have hs := findSysvol_applyAll_full hfeed' (edits.foldl Edit.exec s) path
  have ht : findSysvol path (applyAll feed (edits'.foldl Edit.exec t)) =
      merged (findSysvol path (edits'.foldl Edit.exec t))
        (findSysvol path (edits.foldl Edit.exec s)) := by
    rcases hfeed with hfeed | hfeed
    · exact findSysvol_applyAll_full hfeed _ path
    · rw [findSysvol_applyAll_full hfeed, hs]
      exact merged_merged _ _
  rw [Share.view, Share.view, hs, ht]
  exact merged_agree_iff _ _

section Sample

def emptyShare : Share := ⟨[], List.nodup_nil⟩

def gptIni : String := "example.com\\Policies\\GPT.INI"

/-- A node on which the file was written at that time. -/
def written (content : List UInt8) (now : ℕ) : Share :=
  [Edit.upsert gptIni content now].foldl Edit.exec emptyShare

/-- Both nodes write the file for the first time, at the same time. -/
theorem same_instant :
    (applyAll (sysvolFeed none 10 (written [2] 5)).1 (written [1] 5)).view gptIni ≠
      (applyAll (sysvolFeed none 10 (written [1] 5)).1 (written [2] 5)).view gptIni := by
  decide +kernel

/-- One node writes the file later than the other. -/
theorem sysvol_converges_iff_later :
    (applyAll (sysvolFeed none 10 (written [2] 6)).1 (written [1] 5)).view =
        (applyAll (sysvolFeed none 10 (written [1] 5)).1 (written [2] 6)).view ∧
      (applyAll (sysvolFeed none 10 (written [2] 6)).1 (written [1] 5)).view gptIni =
        some (some [2]) := by
  refine ⟨(sysvol_converges_iff emptyShare emptyShare [.upsert gptIni [1] 5]
    [.upsert gptIni [2] 6] (isFullFeed_sysvolFeed (by decide +kernel))
    (.inl (isFullFeed_sysvolFeed (by decide +kernel)))).mpr ?_, by decide +kernel⟩
  unfold TiesAgree
  decide +kernel

end Sample

end Magnetite.Sysvol
