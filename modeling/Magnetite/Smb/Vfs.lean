import Magnetite.Smb.Server

/-!
# Served trees

How a tree is built from a list of files. Nodes are numbered as they are made, and an index finds
them by the names on their path, in lower case and with backslashes in between. The invariant of
the building gives every node its path: the index and the lists of children are read off these
paths.
-/
namespace Magnetite.Smb

open Magnetite.Lib

/-- `str::to_lowercase`. The backslash has no case, and what stands before and behind one does not
influence the other. -/
structure Folding where
  lower : List Char → List Char
  lower_nil : lower [] = []
  lower_ne_nil : ∀ name, name ≠ [] → lower name ≠ []
  not_mem_lower : ∀ name, '\\' ∉ name → '\\' ∉ lower name
  lower_append : ∀ a b, lower (a ++ '\\' :: b) = lower a ++ '\\' :: lower b

/-! ## Building -/

namespace Vfs

/-- `trim_matches`: without the backslashes at both ends. -/
def trimmed (path : List Char) : List Char :=
  ((path.dropWhile (· = '\\')).reverse.dropWhile (· = '\\')).reverse

/-- With backslashes only. -/
def backslashed (path : List Char) : List Char := path.map fun c => if c = '/' then '\\' else c

/-- The names of a path; empty ones are dropped. -/
def parts (path : List Char) : List (List Char) := (path.splitOn '\\').filter (· ≠ [])

/-- The nodes so far and the index. -/
structure Builder where
  nodes : List Node
  index : List (List Char × ℕ)

def addChild (child : ℕ) (node : Node) : Node :=
  match node.kind with
  | .dir children => { node with kind := .dir (children ++ [child]) }
  | .file _ => node

def ensureChild (b : Builder) (parent : ℕ) (name path : List Char) (kind : Kind) : Builder × ℕ :=
  match b.index.lookup path with
  | some existing => (b, existing)
  | none =>
    let new := b.nodes.length
    (⟨(b.nodes ++ [Node.mk (String.ofList name) kind]).modify parent (addChild new),
      (path, new) :: b.index⟩, new)

/-- The root alone. -/
def emptyTree : Builder := ⟨[⟨"", .dir []⟩], [([], 0)]⟩

variable (fold : Folding)

def normalize (path : List Char) : List Char := fold.lower (trimmed (backslashed path))

def join (base part : List Char) : List Char :=
  if base = [] then fold.lower part else base ++ '\\' :: fold.lower part

/-- The directories of a path, below a node and the path to it. -/
def ensureDirs (b : Builder) (parent : ℕ) (cur : List Char) :
    List (List Char) → Builder × ℕ × List Char
  | [] => (b, parent, cur)
  | dir :: dirs =>
    let cur := join fold cur dir
    let child := ensureChild b parent dir cur (.dir [])
    ensureDirs child.1 child.2 cur dirs

def addFile (b : Builder) (file : String × List UInt8) : Builder :=
  match (parts file.1.toList).getLast? with
  | none => b
  | some fileName =>
    let below := ensureDirs fold b 0 [] (parts file.1.toList).dropLast
    (ensureChild below.1 below.2.1 fileName (join fold below.2.2 fileName) (.file file.2)).1

def fromFiles (files : List (String × List UInt8)) : Vfs :=
  let b := files.foldl (addFile fold) emptyTree
  ⟨b.nodes, fun path => b.index.lookup (normalize fold path.toList)⟩

/-! ## Paths -/

/-- The names from the root to a node. -/
abbrev Path := List (List Char)

/-- No name is empty or has a backslash in it. -/
def Proper (path : Path) : Prop := ∀ name ∈ path, name ≠ [] ∧ '\\' ∉ name

instance (path : Path) : Decidable (Proper path) := List.decidableBAll _ _

/-- The names with backslashes in between. -/
def key (path : Path) : List Char := ['\\'].intercalate path

section Paths

variable {path : Path} {name x : List Char}

theorem key_cons_cons (x y : List Char) (path : Path) :
    key (x :: y :: path) = x ++ '\\' :: key (y :: path) := by
  simp [key, List.intercalate_cons_cons]

theorem key_concat (hne : path ≠ []) (name : List Char) :
    key (path ++ [name]) = key path ++ '\\' :: name := by
  induction path with
  | nil => exact absurd rfl hne
  | cons x xs ih =>
    cases xs with
    | nil => simp [key]
    | cons y ys =>
      rw [List.cons_append, List.cons_append, key_cons_cons, key_cons_cons, ← List.cons_append,
        ih (List.cons_ne_nil _ _), List.append_assoc, List.cons_append]

theorem Proper.concat (h : Proper path) (hname : name ≠ [] ∧ '\\' ∉ name) :
    Proper (path ++ [name]) := by
  intro n hn
  rcases List.mem_append.mp hn with hn | hn
  · exact h n hn
  · rwa [List.mem_singleton.mp hn]

theorem Proper.key_eq_nil_iff (h : Proper path) : key path = [] ↔ path = [] := by
  cases path with
  | nil => simp [key]
  | cons x xs =>
    have hx := (h x List.mem_cons_self).1
    cases xs with
    | nil => simpa [key] using hx
    | cons y ys => simp [key_cons_cons]

theorem Proper.splitOn_key (h : Proper path) (hne : path ≠ []) :
    (key path).splitOn '\\' = path :=
  List.splitOn_intercalate '\\' (fun name hname => (h name hname).2) hne

theorem Proper.key_injective {other : Path} (h : Proper path) (ho : Proper other)
    (heq : key path = key other) : path = other := by
  by_cases hne : path = []
  · subst hne
    exact (ho.key_eq_nil_iff.mp heq.symm).symm
  · have hne' : other ≠ [] := fun h0 => hne (h.key_eq_nil_iff.mp (heq.trans (by rw [h0]; rfl)))
    rw [← h.splitOn_key hne, heq, ho.splitOn_key hne']

/-- No slash stands at either end of a key. -/
theorem Proper.key_ends (h : Proper path) :
    (key path).head? ≠ some '\\' ∧ (key path).getLast? ≠ some '\\' := by
  have inside {name : List Char} (hname : '\\' ∉ name) :
      name.head? ≠ some '\\' ∧ name.getLast? ≠ some '\\' :=
    ⟨fun h0 => hname (List.mem_of_head? h0), fun h0 => hname (List.mem_of_getLast? h0)⟩
  constructor
  · cases path with
    | nil => simp [key]
    | cons x xs =>
      obtain ⟨hx, hsep⟩ := h x List.mem_cons_self
      cases xs with
      | nil => simpa [key] using (inside hsep).1
      | cons y ys =>
        rw [key_cons_cons, List.head?_append_of_ne_nil _ hx]
        exact (inside hsep).1
  · rcases List.eq_nil_or_concat path with rfl | ⟨xs, x, rfl⟩
    · simp [key]
    · obtain ⟨hx, hsep⟩ := h x (by simp)
      by_cases hxs : xs = []
      · subst hxs
        simpa [key] using (inside hsep).2
      · rw [List.concat_eq_append, key_concat hxs, List.getLast?_append_of_ne_nil _ (by simp),
          List.getLast?_cons_of_ne_nil hx]
        exact (inside hsep).2

theorem not_mem_of_mem_splitOn {text : List Char} (h : name ∈ text.splitOn '\\') : '\\' ∉ name := by
  induction text generalizing name with
  | nil => simp_all
  | cons c text ih =>
    rw [List.splitOn_cons_eq_if_modifyHead] at h
    split at h
    · rcases List.mem_cons.mp h with rfl | h
      · exact List.not_mem_nil
      · exact ih h
    · next hc =>
      obtain ⟨first, rest, hsplit⟩ := List.exists_cons_of_ne_nil (List.splitOn_ne_nil '\\' text)
      rw [hsplit] at h ih
      rcases List.mem_cons.mp h with rfl | h
      · simpa [eq_comm] using ⟨by simpa using hc, ih List.mem_cons_self⟩
      · exact ih (List.mem_cons_of_mem _ h)

theorem proper_parts (text : List Char) : Proper (parts text) := by
  intro name hname
  obtain ⟨hmem, hne⟩ := List.mem_filter.mp hname
  exact ⟨by simpa using hne, not_mem_of_mem_splitOn hmem⟩

/-- What is cut off at the ends are backslashes. -/
theorem trimmed_spec (text : List Char) :
    ∃ a b, text = List.replicate a '\\' ++ trimmed text ++ List.replicate b '\\' := by
  have run (l : List Char) :
      l = List.replicate (l.takeWhile (· = '\\')).length '\\' ++ l.dropWhile (· = '\\') := by
    conv_lhs => rw [← List.takeWhile_append_dropWhile (p := (· = '\\')) (l := l)]
    congr 1
    refine List.eq_replicate_iff.mpr ⟨rfl, fun c hc => by simpa using List.mem_takeWhile_imp hc⟩
  have back := congrArg List.reverse (run (text.dropWhile (· = '\\')).reverse)
  rw [List.reverse_reverse, List.reverse_append, List.reverse_replicate] at back
  have front := run text
  rw [back, ← List.append_assoc] at front
  exact ⟨_, _, front⟩

theorem trimmed_eq {text : List Char} (a b : ℕ)
    (hends : text.head? ≠ some '\\' ∧ text.getLast? ≠ some '\\') :
    trimmed (List.replicate a '\\' ++ text ++ List.replicate b '\\') = text := by
  have run (k : ℕ) (l : List Char) (hl : l.head? ≠ some '\\') :
      (List.replicate k '\\' ++ l).dropWhile (· = '\\') = l := by
    rw [List.dropWhile_append_of_pos (by simp +contextual)]
    cases l with
    | nil => rfl
    | cons c l => exact List.dropWhile_cons_of_neg (by simpa using hl)
  cases text with
  | nil =>
    have h0 := run (a + b) [] (by simp)
    rw [List.append_nil, ← List.replicate_append_replicate] at h0
    rw [trimmed, List.append_nil, h0]
    rfl
  | cons c text =>
    rw [trimmed, List.append_assoc, run a _ (by simpa using hends.1), List.reverse_append,
      List.reverse_replicate, run b _ (by rw [List.head?_reverse]; exact hends.2),
      List.reverse_reverse]

theorem lower_key (path : Path) : fold.lower (key path) = key (path.map fold.lower) := by
  induction path with
  | nil => exact fold.lower_nil
  | cons x xs ih =>
    cases xs with
    | nil => simp [key]
    | cons y ys =>
      rw [key_cons_cons, fold.lower_append, ih]
      exact (key_cons_cons _ _ _).symm

theorem Proper.map_lower (h : Proper path) : Proper (path.map fold.lower) := by
  intro name hname
  obtain ⟨x, hx, rfl⟩ := List.mem_map.mp hname
  exact ⟨fold.lower_ne_nil x (h x hx).1, fold.not_mem_lower x (h x hx).2⟩

theorem Proper.join_key (h : Proper path) (part : List Char) :
    join fold (key path) part = key (path ++ [fold.lower part]) := by
  by_cases hp : path = []
  · subst hp
    simp [join, key]
  · rw [join, if_neg fun h0 => hp (h.key_eq_nil_iff.mp h0), key_concat hp]

end Paths

/-! ## Growth -/

namespace Builder

def kindAt (b : Builder) (i : ℕ) : Option Kind := b.nodes[i]?.map Node.kind

/-- Node `i` has the `i`-th of the paths, the first of them being the root's. Every path leads to
one of the targets, and the nodes that are files are those of the list. -/
structure Grown (b : Builder) (paths targets : List Path) (files : List (Path × List UInt8)) :
    Prop where
  length : b.nodes.length = paths.length
  root : paths[0]? = some []
  nodup : paths.Nodup
  proper : ∀ path ∈ paths, Proper path
  index : ∀ {k i}, b.index.lookup k = some i ↔ ∃ path, paths[i]? = some path ∧ k = key path
  children : ∀ {i path cs}, paths[i]? = some path → b.kindAt i = some (.dir cs) →
    cs.Nodup ∧ ∀ j, j ∈ cs ↔ ∃ name, paths[j]? = some (path ++ [name])
  parent : ∀ {path name}, path ++ [name] ∈ paths →
    ∃ i cs, paths[i]? = some path ∧ b.kindAt i = some (.dir cs)
  isFile : ∀ {i content}, b.kindAt i = some (.file content) →
    ∃ path, (path, content) ∈ files ∧ paths[i]? = some path
  listed : ∀ {path content}, (path, content) ∈ files →
    ∃ i, paths[i]? = some path ∧ b.kindAt i = some (.file content)
  within : ∀ path ∈ paths, path ≠ [] → ∃ target ∈ targets, path <+: target

theorem lookup_cons_eq_some {k k' : List Char} {n i : ℕ} {index : List (List Char × ℕ)} :
    ((k', n) :: index).lookup k = some i ↔
      k = k' ∧ n = i ∨ k ≠ k' ∧ index.lookup k = some i := by
  rw [List.lookup_cons]
  by_cases h : k = k'
  · simp [h]
  · simp [h, beq_eq_false_iff_ne.mpr h]

theorem grown_emptyTree : emptyTree.Grown [[]] [] [] where
  length := rfl
  root := rfl
  nodup := by simp
  proper := by simp [Proper]
  index {k i} := by
    rw [emptyTree, lookup_cons_eq_some]
    cases i with
    | zero => simp [key]
    | succ i => simp
  children {i path cs} hpath hkind := by
    cases i with
    | zero =>
      obtain rfl : [] = path := by simpa using hpath
      obtain rfl : [] = cs := by simpa [emptyTree, kindAt] using hkind
      refine ⟨List.nodup_nil, fun j => ?_⟩
      cases j <;> simp
    | succ i => simp at hpath
  parent := by simp
  isFile {i content} hkind := by
    cases i <;> simp [emptyTree, kindAt] at hkind
  listed := by simp
  within := by simp

/-- The builder with one more node. -/
def grow (b : Builder) (parent : ℕ) (name k : List Char) (kind : Kind) : Builder :=
  ⟨(b.nodes ++ [Node.mk (String.ofList name) kind]).modify parent (addChild b.nodes.length),
    (k, b.nodes.length) :: b.index⟩

variable {b : Builder} {parent : ℕ} {name k : List Char} {kind : Kind} {paths targets : List Path}
  {files : List (Path × List UInt8)} {path : Path} {cs : List ℕ}

theorem kindAt_addChild (child : ℕ) (node : Node) : (addChild child node).kind =
    match node.kind with
    | .dir children => .dir (children ++ [child])
    | .file content => .file content := by
  rw [addChild]
  split <;> simp_all

/-- A new node, a parent that has got it as its child, and the other nodes as they were. -/
theorem kindAt_grow (name k : List Char) (kind : Kind)
    (hparent : b.kindAt parent = some (.dir cs)) (i : ℕ) :
    (b.grow parent name k kind).kindAt i =
      if i = b.nodes.length then some kind
      else if i = parent then some (.dir (cs ++ [b.nodes.length])) else b.kindAt i := by
  obtain ⟨node, hnode, hkind⟩ := Option.map_eq_some_iff.mp hparent
  have hlt : parent < b.nodes.length := (List.getElem?_eq_some_iff.mp hnode).1
  rw [kindAt, grow, List.getElem?_modify]
  rcases Nat.lt_trichotomy i b.nodes.length with hi | rfl | hi
  · rw [List.getElem?_append_left hi, if_neg hi.ne]
    by_cases hip : i = parent
    · subst hip
      simp [hnode, kindAt_addChild, hkind]
    · simp [hip, Ne.symm hip, kindAt]
  · simp [hlt.ne]
  · rw [List.getElem?_eq_none (by simp; omega), if_neg hi.ne', if_neg (by omega), kindAt,
      List.getElem?_eq_none (by omega)]
    rfl

/-- The file that a node of this kind and path is. -/
def fileOf (path : Path) : Kind → List (Path × List UInt8)
  | .file content => [(path, content)]
  | .dir _ => []

/-- A place in a longer list of paths. -/
theorem getElem?_concat_iff {i : ℕ} {new : Path} : (paths ++ [new])[i]? = some path ↔
    paths[i]? = some path ∨ i = paths.length ∧ path = new := by
  rcases Nat.lt_trichotomy i paths.length with hi | rfl | hi
  · simp [List.getElem?_append_left hi, hi.ne]
  · simp [eq_comm]
  · rw [List.getElem?_eq_none (by simp; omega), List.getElem?_eq_none (by omega)]
    simp [hi.ne']

theorem Grown.ne_length (h : b.Grown paths targets files) {i : ℕ} {p : Path}
    (hi : paths[i]? = some p) : i ≠ b.nodes.length := by
  rw [h.length]
  exact (List.getElem?_eq_some_iff.mp hi).1.ne

theorem Grown.index_grow (h : b.Grown paths targets files) (hproper : Proper (path ++ [name]))
    (hnew : path ++ [name] ∉ paths) (shown : List Char) {k : List Char} {i : ℕ} :
    (b.grow parent shown (key (path ++ [name])) kind).index.lookup k = some i ↔
      ∃ p, (paths ++ [path ++ [name]])[i]? = some p ∧ k = key p := by
  rw [Builder.grow, lookup_cons_eq_some, h.index, h.length]
  simp only [getElem?_concat_iff]
  constructor
  · rintro (⟨rfl, rfl⟩ | ⟨-, p, hp, rfl⟩)
    · exact ⟨_, .inr ⟨rfl, rfl⟩, rfl⟩
    · exact ⟨p, .inl hp, rfl⟩
  · rintro ⟨p, hp | ⟨rfl, rfl⟩, rfl⟩
    · refine .inr ⟨fun heq => hnew ?_, p, hp, rfl⟩
      rw [← (h.proper p (List.mem_of_getElem? hp)).key_injective hproper heq]
      exact List.mem_of_getElem? hp
    · exact .inl ⟨rfl, rfl⟩

/-- The parent has got the new node as one more child. -/
theorem Grown.children_parent (h : b.Grown paths targets files) (hpath : paths[parent]? = some path)
    (hparent : b.kindAt parent = some (.dir cs)) (name : List Char) :
    (cs ++ [b.nodes.length]).Nodup ∧ ∀ j, j ∈ cs ++ [b.nodes.length] ↔
      ∃ n, (paths ++ [path ++ [name]])[j]? = some (path ++ [n]) := by
  obtain ⟨hnd, hcs⟩ := h.children hpath hparent
  have hout : b.nodes.length ∉ cs := fun hmem => by
    obtain ⟨n, hn⟩ := (hcs _).mp hmem
    exact h.ne_length hn rfl
  refine ⟨List.concat_eq_append ▸ hnd.concat hout, fun j => ?_⟩
  simp only [getElem?_concat_iff]
  rw [List.mem_append, List.mem_singleton, hcs, h.length]
  constructor
  · rintro (⟨n, hn⟩ | rfl)
    · exact ⟨n, .inl hn⟩
    · exact ⟨name, .inr ⟨rfl, rfl⟩⟩
  · rintro ⟨n, hn | ⟨rfl, -⟩⟩
    · exact .inl ⟨n, hn⟩
    · exact .inr rfl

/-- The new node's parent is the node it was put under, and no other. -/
theorem Grown.children_other (h : b.Grown paths targets files) (hpath : paths[parent]? = some path)
    (name : List Char) {i : ℕ} {p : Path} {cs' : List ℕ} (hp : paths[i]? = some p) (hne : i ≠ parent)
    (hi : b.kindAt i = some (.dir cs')) :
    cs'.Nodup ∧ ∀ j, j ∈ cs' ↔ ∃ n, (paths ++ [path ++ [name]])[j]? = some (p ++ [n]) := by
  obtain ⟨hnd, hcs⟩ := h.children hp hi
  simp only [getElem?_concat_iff]
  refine ⟨hnd, fun j => (hcs j).trans (exists_congr fun n => (or_iff_left ?_).symm)⟩
  rintro ⟨-, heq⟩
  rw [(List.append_inj' heq rfl).1, ← hpath] at hp
  exact hne ((List.getElem?_inj (List.getElem?_eq_some_iff.mp hpath).1 h.nodup).mp hp.symm).symm

/-- Nothing is under the new node. -/
theorem Grown.childless (h : b.Grown paths targets files) (hnew : path ++ [name] ∉ paths) (j : ℕ)
    (n : List Char) : (paths ++ [path ++ [name]])[j]? ≠ some (path ++ [name] ++ [n]) := by
  intro hn
  rcases getElem?_concat_iff.mp hn with hn | ⟨-, hn⟩
  · obtain ⟨i, -, hi, -⟩ := h.parent (List.mem_of_getElem? hn)
    exact hnew (List.mem_of_getElem? hi)
  · simp at hn

/-- What is a directory stays one. -/
theorem Grown.dir_grow (h : b.Grown paths targets files)
    (hparent : b.kindAt parent = some (.dir cs)) (shown k : List Char) (kind : Kind) (new : Path)
    {i : ℕ} {p : Path} {cs' : List ℕ} (hi : paths[i]? = some p)
    (hdir : b.kindAt i = some (.dir cs')) : ∃ i cs', (paths ++ [new])[i]? = some p ∧
      (b.grow parent shown k kind).kindAt i = some (.dir cs') := by
  refine ⟨i, if i = parent then cs ++ [b.nodes.length] else cs',
    getElem?_concat_iff.mpr (.inl hi), ?_⟩
  rw [kindAt_grow shown k kind hparent, if_neg (h.ne_length hi)]
  split
  · rfl
  · exact hdir

theorem Grown.isFile_grow (h : b.Grown paths targets files)
    (hparent : b.kindAt parent = some (.dir cs)) (shown k : List Char) (new : Path) {i : ℕ}
    {content : List UInt8} (hi : (b.grow parent shown k kind).kindAt i = some (.file content)) :
    ∃ p, (p, content) ∈ fileOf new kind ++ files ∧ (paths ++ [new])[i]? = some p := by
  rw [kindAt_grow shown k kind hparent] at hi
  split at hi
  · next heq =>
    obtain rfl : kind = .file content := by simpa using hi
    exact ⟨new, by simp [fileOf], getElem?_concat_iff.mpr (.inr ⟨heq.trans h.length, rfl⟩)⟩
  · split at hi
    · simp at hi
    · obtain ⟨p, hp, hi⟩ := h.isFile hi
      exact ⟨p, List.mem_append_right _ hp, getElem?_concat_iff.mpr (.inl hi)⟩

theorem Grown.listed_grow (h : b.Grown paths targets files)
    (hparent : b.kindAt parent = some (.dir cs)) (shown k : List Char) {new p : Path}
    {content : List UInt8} (hp : (p, content) ∈ fileOf new kind ++ files) :
    ∃ i, (paths ++ [new])[i]? = some p ∧
      (b.grow parent shown k kind).kindAt i = some (.file content) := by
  have hkind {i : ℕ} := kindAt_grow shown k kind hparent i
  rcases List.mem_append.mp hp with hp | hp
  · cases kind with
    | dir _ => simp [fileOf] at hp
    | file c =>
      obtain ⟨rfl, rfl⟩ : p = new ∧ content = c := by simpa [fileOf] using hp
      exact ⟨paths.length, getElem?_concat_iff.mpr (.inr ⟨rfl, rfl⟩),
        by rw [hkind, if_pos h.length.symm]⟩
  · obtain ⟨i, hi, hfile⟩ := h.listed hp
    have hne : i ≠ parent := by
      rintro rfl
      rw [hparent] at hfile
      cases hfile
    exact ⟨i, getElem?_concat_iff.mpr (.inl hi),
      by rw [hkind, if_neg (h.ne_length hi), if_neg hne, hfile]⟩

theorem Grown.grow (h : b.Grown paths targets files) (hpath : paths[parent]? = some path)
    (hparent : b.kindAt parent = some (.dir cs)) (hnew : path ++ [name] ∉ paths)
    (hname : name ≠ [] ∧ '\\' ∉ name) (hwithin : ∃ target ∈ targets, path ++ [name] <+: target)
    (hempty : ∀ cs, kind = .dir cs → cs = []) (shown : List Char) :
    (b.grow parent shown (key (path ++ [name])) kind).Grown (paths ++ [path ++ [name]]) targets
      (fileOf (path ++ [name]) kind ++ files) := by
  have hproper : Proper (path ++ [name]) :=
    (h.proper path (List.mem_of_getElem? hpath)).concat hname
  constructor
  case length => simp [Builder.grow, h.length]
  case root => exact getElem?_concat_iff.mpr (.inl h.root)
  case nodup =>
    refine List.nodup_append.mpr ⟨h.nodup, List.nodup_singleton _, fun p hp q hq heq => hnew ?_⟩
    rwa [← List.mem_singleton.mp hq, ← heq]
  case proper =>
    intro p hp
    rcases List.mem_append.mp hp with hp | hp
    · exact h.proper p hp
    · rwa [List.mem_singleton.mp hp]
  case index => exact h.index_grow hproper hnew shown
  case children =>
    intro i p cs' hp hi
    rw [kindAt_grow shown _ kind hparent] at hi
    rcases getElem?_concat_iff.mp hp with hp | ⟨rfl, rfl⟩
    · rw [if_neg (h.ne_length hp)] at hi
      split at hi
      · next heq =>
        subst heq
        obtain rfl : path = p := Option.some_injective _ (hpath.symm.trans hp)
        obtain rfl : cs ++ [b.nodes.length] = cs' := by simpa using hi
        exact h.children_parent hpath hparent name
      · next hne => exact h.children_other hpath name hp hne hi
    · rw [if_pos h.length.symm] at hi
      obtain rfl := hempty cs' (Option.some_injective _ hi)
      refine ⟨List.nodup_nil, fun j => ⟨by simp, ?_⟩⟩
      rintro ⟨n, hn⟩
      exact absurd hn (h.childless hnew j n)
  case parent =>
    intro p n hp
    rcases List.mem_append.mp hp with hp | hp
    · obtain ⟨i, cs', hi, hdir⟩ := h.parent hp
      exact h.dir_grow hparent shown _ kind _ hi hdir
    · obtain ⟨rfl, -⟩ := List.append_inj' (List.mem_singleton.mp hp) rfl
      exact h.dir_grow hparent shown _ kind _ hpath hparent
  case isFile => exact h.isFile_grow hparent shown _ _
  case listed => exact h.listed_grow hparent shown _
  case within =>
    intro p hp hne
    rcases List.mem_append.mp hp with hp | hp
    · exact h.within p hp hne
    · rwa [List.mem_singleton.mp hp]

theorem Grown.mono {targets' : List Path} (h : b.Grown paths targets files)
    (hle : ∀ t ∈ targets, ∃ t' ∈ targets', t <+: t') : b.Grown paths targets' files where
  __ := h
  within p hp hne := by
    obtain ⟨t, ht, hpt⟩ := h.within p hp hne
    obtain ⟨t', ht', htt'⟩ := hle t ht
    exact ⟨t', ht', hpt.trans htt'⟩

/-- A grown tree and the directory of it that has the path. -/
def Stands (at_ : Builder × ℕ) (targets : List Path) (files : List (Path × List UInt8))
    (path : Path) : Prop :=
  ∃ paths cs, at_.1.Grown paths targets files ∧ paths[at_.2]? = some path ∧
    at_.1.kindAt at_.2 = some (.dir cs)

theorem Grown.find {i : ℕ} (h : b.Grown paths targets files) (hproper : Proper path)
    (hi : b.index.lookup (key path) = some i) : paths[i]? = some path := by
  obtain ⟨p, hp, hkey⟩ := h.index.mp hi
  rwa [hproper.key_injective (h.proper p (List.mem_of_getElem? hp)) hkey]

theorem Grown.not_mem (h : b.Grown paths targets files)
    (hi : b.index.lookup (key path) = none) : path ∉ paths := by
  intro hmem
  obtain ⟨i, hi'⟩ := List.getElem?_of_mem hmem
  rw [h.index.mpr ⟨_, hi', rfl⟩] at hi
  cases hi

/-- A directory below a directory is there afterwards, if its path is not a file's. -/
theorem Stands.ensureDir (h : Stands (b, parent) targets files path)
    (hname : name ≠ [] ∧ '\\' ∉ name) (hwithin : ∃ target ∈ targets, path ++ [name] <+: target)
    (hfree : ∀ f ∈ files, f.1 ≠ path ++ [name]) (shown : List Char) :
    Stands (ensureChild b parent shown (key (path ++ [name])) (.dir [])) targets files
      (path ++ [name]) := by
  obtain ⟨paths, cs, h, hpath, hparent⟩ := h
  rw [ensureChild]
  split
  · next i hi =>
    have hp := h.find ((h.proper path (List.mem_of_getElem? hpath)).concat hname) hi
    have hlt : i < b.nodes.length := h.length ▸ (List.getElem?_eq_some_iff.mp hp).1
    have hkind : b.kindAt i = some b.nodes[i].kind := by
      rw [kindAt, List.getElem?_eq_getElem hlt, Option.map_some]
    cases hi : b.nodes[i].kind with
    | dir cs' => exact ⟨paths, cs', h, hp, by rw [hkind, hi]⟩
    | file content =>
      obtain ⟨q, hq, hi⟩ := h.isFile (hkind.trans (by rw [hi]))
      exact absurd (Option.some_injective _ (hi.symm.trans hp)) (hfree _ hq)
  · next hi =>
    refine ⟨_, [], h.grow hpath hparent (h.not_mem hi) hname hwithin (by simp) shown,
      getElem?_concat_iff.mpr (.inr ⟨h.length, rfl⟩), ?_⟩
    exact (kindAt_grow _ _ _ hparent _).trans (if_pos rfl)

variable {fold : Folding}

theorem Stands.proper (h : Stands (b, parent) targets files path) : Proper path := by
  obtain ⟨paths, cs, h, hpath, -⟩ := h
  exact h.proper path (List.mem_of_getElem? hpath)

theorem Stands.ensureDirs {dirs : List (List Char)} (h : Stands (b, parent) targets files path)
    (hdirs : Proper dirs) (hwithin : ∃ target ∈ targets, path ++ dirs.map fold.lower <+: target)
    (hfree : ∀ f ∈ files, ¬ f.1 <+: path ++ dirs.map fold.lower) :
    Stands ((ensureDirs fold b parent (key path) dirs).1,
        (ensureDirs fold b parent (key path) dirs).2.1) targets files
        (path ++ dirs.map fold.lower) ∧
      (ensureDirs fold b parent (key path) dirs).2.2 = key (path ++ dirs.map fold.lower) := by
  induction dirs generalizing b parent path with
  | nil => exact ⟨by simpa [Vfs.ensureDirs] using h, by simp [Vfs.ensureDirs]⟩
  | cons dir dirs ih =>
    have hsplit : path ++ (dir :: dirs).map fold.lower =
        path ++ [fold.lower dir] ++ dirs.map fold.lower := by simp
    rw [hsplit] at hwithin hfree ⊢
    obtain ⟨target, ht, hpre⟩ := hwithin
    have hdir := h.ensureDir (hdirs.map_lower fold (fold.lower dir) (by simp))
      ⟨target, ht, (List.prefix_append _ _).trans hpre⟩
      (fun f hf heq => hfree f hf (heq ▸ List.prefix_append _ _)) dir
    rw [Vfs.ensureDirs, h.proper.join_key]
    exact ih hdir (fun n hn => hdirs n (List.mem_cons_of_mem _ hn)) ⟨target, ht, hpre⟩ hfree

theorem Grown.ensureFile (h : b.Grown paths targets files) (hpath : paths[parent]? = some path)
    (hparent : b.kindAt parent = some (.dir cs)) (hnew : path ++ [name] ∉ paths)
    (hname : name ≠ [] ∧ '\\' ∉ name) (hwithin : ∃ target ∈ targets, path ++ [name] <+: target)
    (shown : List Char) (content : List UInt8) :
    (ensureChild b parent shown (key (path ++ [name])) (.file content)).1.Grown
      (paths ++ [path ++ [name]]) targets ((path ++ [name], content) :: files) := by
  have hproper : Proper (path ++ [name]) :=
    (h.proper path (List.mem_of_getElem? hpath)).concat hname
  rw [ensureChild]
  split
  · next hi => exact absurd (List.mem_of_getElem? (h.find hproper hi)) hnew
  · exact h.grow hpath hparent hnew hname hwithin (fun cs h0 => by cases h0) shown

/-- The names of a file in lower case, and its content. -/
def entry (fold : Folding) (file : String × List UInt8) : Path × List UInt8 :=
  ((parts file.1.toList).map fold.lower, file.2)

/-- Neither path leads to the other. -/
def Apart (p q : Path) : Prop := ¬ p <+: q ∧ ¬ q <+: p

theorem Grown.root_kind (h : b.Grown paths targets files) (hfree : ∀ f ∈ files, f.1 ≠ []) :
    Stands (b, 0) targets files [] := by
  have hlt : 0 < b.nodes.length := h.length ▸ (List.getElem?_eq_some_iff.mp h.root).1
  have hkind : b.kindAt 0 = some b.nodes[0].kind := by
    rw [kindAt, List.getElem?_eq_getElem hlt, Option.map_some]
  cases hi : b.nodes[0].kind with
  | dir cs => exact ⟨paths, cs, h, h.root, by rw [hkind, hi]⟩
  | file content =>
    obtain ⟨q, hq, hi⟩ := h.isFile (hkind.trans (by rw [hi]))
    exact absurd (Option.some_injective _ (hi.symm.trans h.root)) (hfree _ hq)

theorem Grown.addFile {file : String × List UInt8} (h : b.Grown paths (files.map Prod.fst) files)
    (hne : parts file.1.toList ≠ []) (hapart : ∀ f ∈ files, Apart f.1 (entry fold file).1) :
    ∃ paths', (addFile fold b file).Grown paths' ((entry fold file :: files).map Prod.fst)
      (entry fold file :: files) := by
  obtain ⟨dirs, last, hparts⟩ : ∃ dirs last, parts file.1.toList = dirs ++ [last] := by
    rcases List.eq_nil_or_concat (parts file.1.toList) with h0 | ⟨dirs, last, h0⟩
    · exact absurd h0 hne
    · exact ⟨dirs, last, h0.trans (List.concat_eq_append ..)⟩
  have hentry : (entry fold file).1 = dirs.map fold.lower ++ [fold.lower last] := by
    simp [entry, hparts]
  have hproper : Proper (dirs ++ [last]) := hparts ▸ proper_parts _
  -- While the directories are made, the directory is the target, so that no path is the file's.
  have hroot : Stands (b, 0) (dirs.map fold.lower :: files.map Prod.fst) files [] :=
    (h.mono fun t ht => ⟨t, List.mem_cons_of_mem _ ht, List.prefix_refl t⟩).root_kind
      fun f hf h0 => (hapart f hf).1 (h0 ▸ List.nil_prefix)
  obtain ⟨⟨paths', cs, h', hpath, hparent⟩, hcur⟩ := hroot.ensureDirs
    (fun n hn => hproper n (List.mem_append_left _ hn)) ⟨_, List.mem_cons_self, List.prefix_refl _⟩
    (fun f hf hpre => (hapart f hf).1 (hentry ▸ hpre.trans (List.prefix_append _ _)))
  have hnew : dirs.map fold.lower ++ [fold.lower last] ∉ paths' := by
    intro hmem
    obtain ⟨t, ht, hpre⟩ := h'.within _ hmem (by simp)
    rcases List.mem_cons.mp ht with rfl | ht
    · have := hpre.length_le
      simp at this
    · obtain ⟨f, hf, rfl⟩ := List.mem_map.mp ht
      exact (hapart f hf).2 (hentry ▸ hpre)
  have hmono : Grown _ paths' ((entry fold file :: files).map Prod.fst) files :=
    h'.mono fun t ht => by
      rcases List.mem_cons.mp ht with rfl | ht
      · exact ⟨_, List.mem_cons_self, hentry ▸ List.prefix_append _ _⟩
      · exact ⟨t, List.mem_cons_of_mem _ ht, List.prefix_refl t⟩
  have hfile := hmono.ensureFile hpath hparent hnew (hproper.map_lower fold _ (by simp))
    ⟨_, List.mem_cons_self, hentry ▸ List.prefix_refl _⟩ last file.2
  have hadd : Vfs.addFile fold b file = (ensureChild (Vfs.ensureDirs fold b 0 (key []) dirs).1
      (Vfs.ensureDirs fold b 0 (key []) dirs).2.1 last
      (key (dirs.map fold.lower ++ [fold.lower last])) (.file file.2)).1 := by
    rw [Vfs.addFile, hparts, List.getLast?_concat, List.dropLast_concat]
    dsimp only
    rw [show ([] : List Char) = key [] from rfl, hcur, List.nil_append,
      Proper.join_key fold fun n hn => hproper.map_lower fold n
        (List.map_append ▸ List.mem_append_left _ hn)]
  rw [List.nil_append, ← hentry] at hfile
  rw [hadd, ← hentry]
  exact ⟨_, hfile⟩

theorem grown_foldl (fold : Folding) (all : List (String × List UInt8))
    (hne : ∀ f ∈ all, parts f.1.toList ≠ [])
    (hapart : all.Pairwise fun f g => Apart (entry fold f).1 (entry fold g).1)
    (hnew : ∀ f ∈ all, ∀ d ∈ files, Apart d.1 (entry fold f).1)
    (h : b.Grown paths (files.map Prod.fst) files) :
    ∃ paths' files', (all.foldl (Vfs.addFile fold) b).Grown paths' (files'.map Prod.fst) files' ∧
      ∀ f, f ∈ files' ↔ f ∈ files ∨ f ∈ all.map (entry fold) := by
  induction all generalizing b paths files with
  | nil => exact ⟨paths, files, h, by simp⟩
  | cons f all ih =>
    obtain ⟨hf, hall⟩ := List.pairwise_cons.mp hapart
    obtain ⟨paths₁, h₁⟩ := h.addFile (hne f List.mem_cons_self) (hnew f List.mem_cons_self)
    obtain ⟨paths', files', h', hmem⟩ := ih (fun g hg => hne g (List.mem_cons_of_mem _ hg)) hall
      (fun g hg d hd => by
        rcases List.mem_cons.mp hd with rfl | hd
        · exact hf g hg
        · exact hnew g (List.mem_cons_of_mem _ hg) d hd) h₁
    refine ⟨paths', files', h', fun g => (hmem g).trans ?_⟩
    rw [List.mem_cons, List.map_cons, List.mem_cons, or_assoc, or_left_comm]

theorem Grown.prefixes (h : b.Grown paths targets files) (rest : Path)
    (hmem : path ++ rest ∈ paths) : path ∈ paths := by
  induction rest using List.reverseRecOn with
  | nil => simpa using hmem
  | append_singleton rest name ih =>
    rw [← List.append_assoc] at hmem
    obtain ⟨i, -, hi, -⟩ := h.parent hmem
    exact ih (List.mem_of_getElem? hi)

end Builder

/-! ## Walks -/

/-- The child at a place in the list of a directory. -/
def childAt (nodes : List Node) (i k : ℕ) : Option ℕ :=
  match nodes[i]?.map Node.kind with
  | some (.dir children) => children[k]?
  | _ => none

/-- The node that is reached by going down to the children at these places. -/
def follow (nodes : List Node) : ℕ → List ℕ → Option ℕ
  | i, [] => some i
  | i, k :: ks => (childAt nodes i k).bind (follow nodes · ks)

section Walks

variable {b : Builder} {paths targets : List Path} {files : List (Path × List UInt8)} {path : Path}
  {i j k : ℕ} {ks ks' : List ℕ}

theorem follow_concat (nodes : List Node) (i : ℕ) (ks : List ℕ) (k : ℕ) :
    follow nodes i (ks ++ [k]) = (follow nodes i ks).bind (childAt nodes · k) := by
  induction ks generalizing i with
  | nil => simp [follow]
  | cons k' ks ih => simp only [List.cons_append, follow, ih, Option.bind_assoc]

theorem childAt_eq_some : childAt b.nodes i k = some j ↔
    ∃ cs, b.kindAt i = some (.dir cs) ∧ cs[k]? = some j := by
  rw [childAt, ← Builder.kindAt]
  split <;> simp_all

namespace Builder

/-- A node's child has its path and one name more. -/
theorem Grown.child (h : b.Grown paths targets files) (hi : paths[i]? = some path)
    (hk : childAt b.nodes i k = some j) : ∃ name, paths[j]? = some (path ++ [name]) := by
  obtain ⟨cs, hcs, hk⟩ := childAt_eq_some.mp hk
  exact ((h.children hi hcs).2 j).mp (List.mem_of_getElem? hk)

/-- A node is as many steps from the root as its path has names. -/
theorem Grown.depth (h : b.Grown paths targets files) (hks : follow b.nodes 0 ks = some j) :
    ∃ path, paths[j]? = some path ∧ path.length = ks.length := by
  induction ks using List.reverseRecOn generalizing j with
  | nil =>
    cases hks
    exact ⟨[], h.root, rfl⟩
  | append_singleton ks k ih =>
    rw [follow_concat] at hks
    obtain ⟨i, hi, hk⟩ := Option.bind_eq_some_iff.mp hks
    obtain ⟨path, hpath, hlen⟩ := ih hi
    obtain ⟨name, hname⟩ := h.child hpath hk
    exact ⟨path ++ [name], hname, by simp [hlen]⟩

theorem Grown.exists_walk (h : b.Grown paths targets files) (hj : paths[j]? = some path) :
    ∃ ks, follow b.nodes 0 ks = some j := by
  induction path using List.reverseRecOn generalizing j with
  | nil =>
    refine ⟨[], congrArg some ?_⟩
    exact (List.getElem?_inj (List.getElem?_eq_some_iff.mp h.root).1 h.nodup).mp
      (h.root.trans hj.symm)
  | append_singleton path name ih =>
    obtain ⟨i, cs, hi, hcs⟩ := h.parent (List.mem_of_getElem? hj)
    obtain ⟨ks, hks⟩ := ih hi
    obtain ⟨k, hk⟩ := List.getElem?_of_mem (((h.children hi hcs).2 j).mpr ⟨name, hj⟩)
    refine ⟨ks ++ [k], ?_⟩
    rw [follow_concat, hks]
    exact childAt_eq_some.mpr ⟨cs, hcs, hk⟩

theorem Grown.walk_unique (h : b.Grown paths targets files) (hks : follow b.nodes 0 ks = some j)
    (hks' : follow b.nodes 0 ks' = some j) : ks = ks' := by
  -- Both walks are as long as the path of the node; their last steps start at the same parent.
  induction ks using List.reverseRecOn generalizing j ks' with
  | nil =>
    obtain ⟨p, hp, hlen⟩ := h.depth hks
    obtain ⟨q, hq, hlen'⟩ := h.depth hks'
    rw [hp] at hq
    cases hq
    exact (List.length_eq_zero_iff.mp (hlen'.symm.trans hlen)).symm
  | append_singleton ks k ih =>
    obtain ⟨p, hp, hlen⟩ := h.depth hks
    obtain ⟨q, hq, hlen'⟩ := h.depth hks'
    rcases List.eq_nil_or_concat ks' with rfl | ⟨ks', k', rfl⟩
    · rw [hp] at hq
      cases hq
      simp [hlen] at hlen'
    · rw [List.concat_eq_append] at hks' ⊢
      rw [follow_concat] at hks hks'
      obtain ⟨i, hi, hk⟩ := Option.bind_eq_some_iff.mp hks
      obtain ⟨i', hi', hk'⟩ := Option.bind_eq_some_iff.mp hks'
      obtain ⟨path, hpath, -⟩ := h.depth hi
      obtain ⟨path', hpath', -⟩ := h.depth hi'
      obtain ⟨name, hname⟩ := h.child hpath hk
      obtain ⟨name', hname'⟩ := h.child hpath' hk'
      obtain ⟨rfl, -⟩ := List.append_inj' (Option.some_injective _ (hname.symm.trans hname')) rfl
      obtain rfl := (List.getElem?_inj (List.getElem?_eq_some_iff.mp hpath).1 h.nodup).mp
        (hpath.trans hpath'.symm)
      obtain ⟨cs, hcs, hk⟩ := childAt_eq_some.mp hk
      obtain ⟨cs', hcs', hk'⟩ := childAt_eq_some.mp hk'
      obtain rfl : cs = cs' := by simpa [hcs] using hcs'
      obtain rfl := (List.getElem?_inj (List.getElem?_eq_some_iff.mp hk).1
        (h.children hpath hcs).1).mp (hk.trans hk'.symm)
      rw [ih hi hi']

end Builder

end Walks

/-! ## The tree of a list of files -/

section Tree

/-- The text has these names, with one slash of either kind between two of them and any number of
slashes around them. -/
def Spells (text : List Char) (path : Path) : Prop :=
  Proper path ∧ ∃ a b,
    backslashed text = List.replicate a '\\' ++ key path ++ List.replicate b '\\'

variable {fold : Folding} {text : List Char} {path : Path}

theorem Spells.normalize (h : Spells text path) :
    normalize fold text = key (path.map fold.lower) := by
  obtain ⟨hproper, a, b, htext⟩ := h
  rw [Vfs.normalize, htext, trimmed_eq a b hproper.key_ends, lower_key]

/-- What is found under the key of a path spells one with the same letters. -/
theorem spells_of_normalize (hproper : Proper path)
    (h : normalize fold text = key path) :
    ∃ names, Spells text names ∧ names.map fold.lower = path := by
  obtain ⟨a, b, htext⟩ := trimmed_spec (backslashed text)
  rw [Vfs.normalize] at h
  by_cases hnil : trimmed (backslashed text) = []
  · rw [hnil, fold.lower_nil] at h
    rw [hnil] at htext
    obtain rfl := hproper.key_eq_nil_iff.mp h.symm
    exact ⟨[], ⟨by simp [Proper], a, b, htext⟩, rfl⟩
  · have hne : path ≠ [] := fun h0 => fold.lower_ne_nil _ hnil (by rw [h, h0]; rfl)
    have hkey : key ((trimmed (backslashed text)).splitOn '\\') = trimmed (backslashed text) :=
      List.intercalate_splitOn '\\'
    rw [← hkey, lower_key] at h
    have hmap : ((trimmed (backslashed text)).splitOn '\\').map fold.lower = path := by
      rw [← hproper.splitOn_key hne, ← h]
      refine (List.splitOn_intercalate '\\' (fun name hname => ?_) ?_).symm
      · obtain ⟨x, hx, rfl⟩ := List.mem_map.mp hname
        exact fold.not_mem_lower x (not_mem_of_mem_splitOn hx)
      · simp
    refine ⟨_, ⟨fun name hname => ⟨?_, not_mem_of_mem_splitOn hname⟩, a, b, by rwa [hkey]⟩, hmap⟩
    rintro rfl
    exact (hproper _ (hmap ▸ List.mem_map_of_mem hname)).1 fold.lower_nil

variable {files : List (String × List UInt8)}

/-- The invariant of the building, at its end. -/
theorem exists_grown (hnamed : ∀ f ∈ files, parts f.1.toList ≠ [])
    (hapart : files.Pairwise fun f g => Builder.Apart (Builder.entry fold f).1
      (Builder.entry fold g).1) :
    ∃ paths files', (files.foldl (addFile fold) emptyTree).Grown paths (files'.map Prod.fst)
      files' ∧ ∀ f, f ∈ files' ↔ f ∈ files.map (Builder.entry fold) := by
  obtain ⟨paths, files', h, hmem⟩ := Builder.grown_foldl fold files hnamed hapart
    (fun f _ d hd => absurd hd List.not_mem_nil) Builder.grown_emptyTree
  exact ⟨paths, files', h, fun f => (hmem f).trans (by simp)⟩

theorem lookup_fromFiles (text : String) : (fromFiles fold files).lookup text =
    (files.foldl (addFile fold) emptyTree).index.lookup (normalize fold text.toList) := rfl

/-- Of files none of whose paths leads to another, each is found with its content under every
spelling of its path, nothing else is found but the directories on the way, and the nodes form a
tree. -/
theorem fromFiles_serves (fold : Folding) (files : List (String × List UInt8))
    (hnamed : ∀ f ∈ files, parts f.1.toList ≠ [])
    (hapart : files.Pairwise fun f g => Builder.Apart (Builder.entry fold f).1
      (Builder.entry fold g).1) :
    (∀ f ∈ files, ∀ (text : String) (names : Path), Spells text.toList names →
      names.map fold.lower = (Builder.entry fold f).1 → ∃ i, (fromFiles fold files).lookup text =
        some i ∧ ((fromFiles fold files).node i).map Node.kind = some (.file f.2)) ∧
    (∀ text : String, ((fromFiles fold files).lookup text).isSome ↔
      ∃ names, Spells text.toList names ∧
        (names = [] ∨ ∃ f ∈ files, names.map fold.lower <+: (Builder.entry fold f).1)) ∧
    ∀ j < (fromFiles fold files).nodes.length,
      ∃! ks, follow (fromFiles fold files).nodes 0 ks = some j := by
  obtain ⟨paths, files', h, hmem⟩ := exists_grown hnamed hapart
  refine ⟨fun f hf text names hspells hnames => ?_, fun text => ⟨fun hsome => ?_, ?_⟩,
    fun j hj => ?_⟩
  · obtain ⟨i, hi, hfile⟩ := h.listed ((hmem _).mpr (List.mem_map_of_mem hf))
    refine ⟨i, ?_, hfile⟩
    rw [lookup_fromFiles, hspells.normalize, hnames]
    exact h.index.mpr ⟨_, hi, rfl⟩
  · obtain ⟨i, hi⟩ := Option.isSome_iff_exists.mp hsome
    obtain ⟨path, hpath, hkey⟩ := h.index.mp hi
    have hin := List.mem_of_getElem? hpath
    obtain ⟨names, hspells, rfl⟩ := spells_of_normalize (h.proper _ hin) hkey
    refine ⟨names, hspells, or_iff_not_imp_left.mpr fun hne => ?_⟩
    obtain ⟨t, ht, hpre⟩ := h.within _ hin (by simpa using hne)
    obtain ⟨g, hg, rfl⟩ := List.mem_map.mp ht
    obtain ⟨f, hf, rfl⟩ := List.mem_map.mp ((hmem g).mp hg)
    exact ⟨f, hf, hpre⟩
  · rintro ⟨names, hspells, hnames⟩
    have hin : names.map fold.lower ∈ paths := by
      rcases hnames with rfl | ⟨f, hf, rest, hrest⟩
      · exact List.mem_of_getElem? h.root
      · obtain ⟨i, hi, -⟩ := h.listed ((hmem _).mpr (List.mem_map_of_mem hf))
        exact h.prefixes rest (hrest ▸ List.mem_of_getElem? hi)
    obtain ⟨i, hi⟩ := List.getElem?_of_mem hin
    rw [lookup_fromFiles, hspells.normalize]
    exact Option.isSome_iff_exists.mpr ⟨i, h.index.mpr ⟨_, hi, rfl⟩⟩
  · obtain ⟨ks, hks⟩ := h.exists_walk (List.getElem?_eq_getElem (h.length ▸ hj))
    exact ⟨ks, hks, fun ks' hks' => h.walk_unique hks' hks⟩

end Tree

/-! ## Samples -/

namespace Sample

theorem toLower_ne_backslash {c : Char} (h : c ≠ '\\') : c.toLower ≠ '\\' := by
  intro heq
  have hnat := Text.toNat_toLower c
  rw [heq, show '\\'.toNat = 92 from rfl] at hnat
  have hc : c.toNat = 92 := by
    split at hnat <;> omega
  exact h (Char.toNat_inj.mp hc)

/-- Lower case of the letters of ASCII. -/
def ascii : Folding where
  lower name := name.map Char.toLower
  lower_nil := rfl
  lower_ne_nil name h := by simpa using h
  not_mem_lower name h hmem := by
    obtain ⟨c, hc, heq⟩ := List.mem_map.mp hmem
    exact toLower_ne_backslash (fun h0 => h (h0 ▸ hc)) heq
  lower_append a b := by simp [show '\\'.toLower = '\\' from rfl]

/-- Two backslashes between the names of a path, or a slash in one. -/
theorem own_path_not_found :
    (fromFiles ascii [("a\\\\b", [1])]).lookup "a\\\\b" = none ∧
    (fromFiles ascii [("a\\\\b", [1])]).lookup "a\\b" = some 2 ∧
    (fromFiles ascii [("a/b", [1])]).lookup "a/b" = none := by
  decide +kernel

theorem fromFiles_serves_policy :
    ∃ i, (fromFiles ascii [("Policies\\GPT.INI", [1]), ("a", [2])]).lookup "/policies/gpt.ini" =
      some i ∧ ((fromFiles ascii [("Policies\\GPT.INI", [1]), ("a", [2])]).node i).map Node.kind =
        some (.file [1]) := by
  refine (fromFiles_serves ascii _ ?_ ?_).1 ("Policies\\GPT.INI", [1]) List.mem_cons_self _
    ["policies".toList, "gpt.ini".toList] ?_ ?_
  · decide +kernel
  · refine List.pairwise_pair.mpr ?_
    exact ⟨by decide +kernel, by decide +kernel⟩
  · exact ⟨by decide +kernel, 1, 0, by decide +kernel⟩
  · decide +kernel

end Sample

end Vfs

end Magnetite.Smb
