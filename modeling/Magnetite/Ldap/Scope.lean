import Mathlib.Data.Set.Insert
import Mathlib.Logic.Relation
import Mathlib.Data.Set.Card
import Magnetite.Lib.Dotted
import Magnetite.Ldap.Policy
import Magnetite.Ldap.Search
import Magnetite.Ldap.SyncStore

/-!
# What a search returns

The names of entries form a tree: the parent of a name is what follows its first comma, and a name
of one component is beneath the root. A search asks the store for the entries of a part of that tree
by a column or by the end of a text, and sends those that match its filter up to a limit. The root
DSE and the schema are answered apart, and the scope of children is read as one level.
-/
namespace Magnetite.Ldap

open Magnetite.Lib

theorem parentOf_eq_some {dn p : String} (h : parentOf dn = some p) :
    dn = rdnOf dn ++ "," ++ p := by
  simp only [parentOf, Text.splitOnce, Option.map_map, Option.map_eq_some_iff,
    Function.comp_apply] at h
  obtain ⟨⟨before, after⟩, hsplit, rfl⟩ := h
  obtain ⟨hdn, hcomma⟩ := Text.splitOnceChars_eq_some hsplit
  have hbefore : dn.toList.takeWhile (· ≠ ',') = before := by
    rw [hdn, List.takeWhile_append_of_pos (by
      intro c hc
      simp only [decide_eq_true_eq]
      rintro rfl
      exact hcomma hc)]
    simp
  rw [← String.toList_inj, rdnOf, Text.beforeFirst, hbefore]
  simpa using hdn

namespace Scope

/-! ### The tree of names -/

/-- The name above a name; there is none above the root. -/
def parentName (dn : String) : Option String :=
  if dn = "" then none else some ((parentOf dn).getD "")

/-- A name is another one or beneath it. -/
def Under (base dn : String) : Prop :=
  Relation.ReflTransGen (fun p c => parentName c = some p) base dn

/-- The part of the tree that a scope names. -/
def InTree (base : String) : LdapSearchScope → String → Prop
  | .base, dn => dn = base
  | .oneLevel, dn | .children, dn => parentName dn = some base
  | .subtree, dn => Under base dn

theorem parentName_of_parentOf {dn p : String} (h : parentOf dn = some p) :
    parentName dn = some p := by
  have hne : dn ≠ "" := by
    rintro rfl
    cases h
  rw [parentName, if_neg hne, h, Option.getD_some]

theorem below_of_parentOf {dn p : String} (h : parentOf dn = some p) :
    Dotted.Below ',' dn.toList p.toList := by
  have hdn := congrArg String.toList (parentOf_eq_some h)
  rw [String.toList_append, String.toList_append, List.append_assoc] at hdn
  exact Dotted.below_iff.mpr ⟨_, hdn⟩

/-- The first comma comes before every other one. -/
theorem below_parentOf {dn base : String} (h : Dotted.Below ',' dn.toList base.toList) :
    ∃ p, parentOf dn = some p ∧ (p = base ∨ Dotted.Below ',' p.toList base.toList) := by
  suffices hchars : ∀ cs : List Char, Dotted.Below ',' cs base.toList →
      ∃ before after, Text.splitOnceChars ',' cs = some (before, after) ∧
        (after = base.toList ∨ Dotted.Below ',' after base.toList) by
    obtain ⟨before, after, hsplit, hafter⟩ := hchars dn.toList h
    refine ⟨.ofList after, by simp [parentOf, Text.splitOnce, hsplit], ?_⟩
    rw [String.toList_ofList]
    exact hafter.imp (fun heq => by rw [heq, String.ofList_toList]) id
  intro cs
  induction cs with
  | nil => exact fun h => absurd h.length_lt (by simp)
  | cons x cs ih =>
    intro h
    by_cases hx : x = ','
    · refine ⟨[], cs, by simp [Text.splitOnceChars, hx], ?_⟩
      exact (Dotted.below_cons_iff.mp h).imp (fun h => h.2.symm) id
    · obtain ⟨hx', -⟩ | h := Dotted.below_cons_iff.mp h
      · exact absurd hx' hx
      · obtain ⟨before, after, hsplit, hafter⟩ := ih h
        exact ⟨x :: before, after, by simp [Text.splitOnceChars, hx, hsplit], hafter⟩

/-- The end of the text says what is beneath a name other than the root. -/
theorem under_iff {base dn : String} (hbase : base ≠ "") :
    Under base dn ↔ dn = base ∨ Dotted.Below ',' dn.toList base.toList := by
  constructor
  · intro h
    induction h with
    | refl => exact .inl rfl
    | @tail p c _ hparent ih =>
      refine .inr ?_
      have hc : c ≠ "" := by
        rintro rfl
        cases hparent
      rw [parentName, if_neg hc, Option.some.injEq] at hparent
      cases hof : parentOf c with
      | none =>
        -- The root is not beneath another name.
        rw [hof, Option.getD_none] at hparent
        obtain rfl | h := hparent ▸ ih
        · exact absurd rfl hbase
        · exact absurd h.length_lt (by simp)
      | some q =>
        rw [hof, Option.getD_some] at hparent
        subst hparent
        obtain rfl | h := ih
        · exact below_of_parentOf hof
        · exact (below_of_parentOf hof).trans h
  · rintro (rfl | h)
    · exact .refl
    · generalize hn : dn.toList.length = n
      induction n using Nat.strongRecOn generalizing dn with
      | ind n ih =>
        obtain ⟨p, hp, hbelow⟩ := below_parentOf h
        refine .tail ?_ (parentName_of_parentOf hp)
        obtain rfl | hbelow := hbelow
        · exact .refl
        · exact ih _ (hn ▸ (below_of_parentOf hp).length_lt) hbelow rfl

theorem inSubtree_iff {base dn : String} (hbase : base ≠ "") :
    Db.inSubtree base dn = true ↔ Under base dn := by
  rw [under_iff hbase, Db.inSubtree, Bool.or_eq_true, beq_iff_eq, Text.endsWith,
    List.isSuffixOf_iff_suffix, String.toList_append]
  rfl

/-! ### The entries of a scope -/

/-- In a scope that is read from the column of the entries, it names the base exactly in those right
beneath it. -/
def Placed (req : LdapSearchRequest) (d : Directory) : Prop :=
  req.scope = .oneLevel ∨ req.scope = .children →
    ∀ (dn : String) (rec : EntryRecord), d.entries[dn]? = some rec →
      (rec.parentDn = some (normalizeDn req.base) ↔ parentName dn = some (normalizeDn req.base))

/-- An entry that a request asks for. -/
def Wanted (d : Directory) (req : LdapSearchRequest) (dn : String) : Prop :=
  ∃ rec, d.entries[dn]? = some rec ∧ InTree (normalizeDn req.base) req.scope dn ∧
    req.filter.holds (attributeView (rec.intoEntry dn)) = true

/-- The entries that the store has in a scope, in the order of their DNs. -/
def listed (d : Directory) (req : LdapSearchRequest) : List DirectoryEntry :=
  let base := normalizeDn req.base
  match req.scope with
  | .base => (d.entries[base]?.map (·.intoEntry base)).toList
  | .oneLevel | .children =>
    (d.entries.toList.filter fun e => e.2.parentDn == some base).map fun e => e.2.intoEntry e.1
  | .subtree =>
    (d.entries.toList.filter fun e => Db.inSubtree base e.1).map fun e => e.2.intoEntry e.1

/-- The outcome of a read, and the store with the rest of its faults. -/
theorem attempt_read {α : Type} (f : Directory → α) (clock : Nat → Nat) (s : Session Directory) :
    StoreM.attempt (StoreM.read DbError.surreal f) clock s =
      (.ok (if s.faults.headD false then .error .surreal else .ok (f s.db)),
        { s with faults := s.faults.tail }) := by
  unfold StoreM.attempt StoreM.read StoreM.call
  cases s.faults.headD false <;> rfl

theorem scopeEntries_run (req : LdapSearchRequest) (clock : Nat → Nat) (s : Session Directory) :
    (scopeEntries req clock s).1 = .ok (if s.faults.headD false then [] else listed s.db req) := by
  have hnorm := normalizeDn_normalizeDn req.base
  have hlist (test : String → EntryRecord → Bool) :
      ((do return (← StoreM.attempt (Db.listEntries test)).toOption.getD [] : DbM _) clock s).1 =
        .ok (if s.faults.headD false then [] else
          (s.db.entries.toList.filter fun e => test e.1 e.2).map fun e => e.2.intoEntry e.1) := by
    simp only [Bind.bind, StoreM.andThen, Db.listEntries, attempt_read]
    split <;> rfl
  have hfull : StoreM.attempt (Db.getEntryFull (normalizeDn req.base)) clock s =
      (.ok (if s.faults.headD false then .error .surreal else
        .ok (s.db.entries[normalizeDn req.base]?.map (·.intoEntry (normalizeDn req.base)))),
        { s with faults := s.faults.tail }) := by
    simp only [StoreM.attempt, Db.getEntryFull, Db.findEntry, Bind.bind, StoreM.andThen,
      StoreM.read, StoreM.call, hnorm]
    cases s.faults.headD false <;> rfl
  unfold scopeEntries listed
  cases req.scope with
  | base =>
    simp only [Bind.bind, StoreM.andThen, hfull]
    split <;> rfl
  | oneLevel | children | subtree =>
    refine (hlist _).trans ?_
    simp only [hnorm]

theorem mem_listing {d : Directory} {test : String × EntryRecord → Bool} {e : DirectoryEntry} :
    e ∈ (d.entries.toList.filter test).map (fun e => e.2.intoEntry e.1) ↔
      ∃ rec, d.entries[e.dn]? = some rec ∧ test (e.dn, rec) = true ∧ e = rec.intoEntry e.dn := by
  simp only [List.mem_map, List.mem_filter, Prod.exists,
    Std.ExtTreeMap.mem_toList_iff_getElem?_eq_some]
  constructor
  · rintro ⟨dn, rec, ⟨hrec, htest⟩, rfl⟩
    exact ⟨rec, hrec, htest, rfl⟩
  · rintro ⟨rec, hrec, htest, he⟩
    exact ⟨e.dn, rec, ⟨hrec, htest⟩, he.symm⟩

section

variable {d : Directory} {req : LdapSearchRequest}

theorem mem_listed (hbase : normalizeDn req.base ≠ "") (hplaced : Placed req d)
    {e : DirectoryEntry} : e ∈ listed d req ↔
      ∃ rec, d.entries[e.dn]? = some rec ∧ InTree (normalizeDn req.base) req.scope e.dn ∧
        e = rec.intoEntry e.dn := by
  unfold listed InTree
  cases hscope : req.scope with
  | base =>
    simp only [Option.mem_toList, Option.map_eq_some_iff]
    constructor
    · rintro ⟨rec, hrec, rfl⟩
      exact ⟨rec, hrec, rfl, rfl⟩
    · rintro ⟨rec, hrec, hdn, he⟩
      rw [hdn] at hrec he
      exact ⟨rec, hrec, he.symm⟩
  | oneLevel | children =>
    rw [mem_listing]
    refine exists_congr fun rec => and_congr_right fun hrec => and_congr_left fun _ => ?_
    rw [beq_iff_eq, hplaced (by simp [hscope]) e.dn rec hrec]
  | subtree =>
    rw [mem_listing]
    exact exists_congr fun rec => and_congr_right fun _ => and_congr_left fun _ =>
      inSubtree_iff hbase

theorem nodup_listed (d : Directory) (req : LdapSearchRequest) :
    ((listed d req).map (·.dn)).Nodup := by
  have hkeys (test : String × EntryRecord → Bool) :
      (((d.entries.toList.filter test).map fun e => e.2.intoEntry e.1).map (·.dn)).Nodup := by
    rw [List.map_map, List.nodup_iff_pairwise_ne, List.pairwise_map]
    refine (d.entries.distinct_keys_toList.filter test).imp fun hne heq => hne ?_
    exact Std.compare_eq_iff_eq.mpr heq
  unfold listed
  cases req.scope with
  | base =>
    dsimp only
    cases d.entries[normalizeDn req.base]? with
    | none => exact List.nodup_nil
    | some rec => exact List.nodup_singleton _
  | oneLevel | children | subtree => exact hkeys _

/-! ### The search -/

/-- How many entries a search sends at most. -/
def sizeLimit (req : LdapSearchRequest) : Nat :=
  if 0 < req.sizelimit then min req.sizelimit defaultSizeLimit else defaultSizeLimit

/-- The store calls of a search before it reads the entries. -/
def firstCalls (env : SearchEnv) (boundDn : Option String) (req : LdapSearchRequest) :
    DbM Unit := do
  let _ ← StoreM.attempt (Db.evaluateLdapAcl boundDn .search req.base)
  let _ ← StoreM.attempt (StoreM.read .surreal fun _ => env.domainSid)

/-- The entries of a list that match. -/
def matching (req : LdapSearchRequest) (entries : List DirectoryEntry) : List DirectoryEntry :=
  entries.filter fun e => req.filter.holds (attributeView e)

variable {env : SearchEnv} {boundDn : Option String} {clock : Nat → Nat} {s t : Session Directory}
  {reply : SearchReply}

theorem firstCalls_db (env : SearchEnv) (boundDn : Option String) (req : LdapSearchRequest)
    (clock : Nat → Nat) (s : Session Directory) :
    (firstCalls env boundDn req clock s).2.db = s.db := by
  have hdecide := (evaluateLdapAcl_spec s.db boundDn .search req.base).run clock s rfl
  have hdb : (Db.evaluateLdapAcl boundDn .search req.base clock s).2.db = s.db := by
    split at hdecide
    · rename_i heq
      rw [heq]
      exact hdecide.1
    · rename_i heq
      rw [heq]
      exact hdecide
  rw [← hdb]
  simp only [firstCalls, Bind.bind, StoreM.andThen, StoreM.attempt, StoreM.read, StoreM.call]
  split <;> rfl

/-- A search that succeeds sends what it finds among the entries it read. -/
theorem handleSearch_success (hrun : handleSearch env boundDn req clock s = (.ok reply, t))
    (hbase : normalizeDn req.base ≠ "")
    (hschema : normalizeDn req.base ≠ normalizeDn (subschemaDn env.baseDn))
    (hsuccess : reply.result.code = .success) :
    ∃ sub, reply.entries =
      ((matching req (if (firstCalls env boundDn req clock s).2.faults.headD false then []
        else listed s.db req)).take (sizeLimit req)).map
          fun e => searchEntry env e req.attrs (some sub) := by
  have hroot : ¬ (req.base = "" ∧ req.scope = .base) := by
    rintro ⟨h, -⟩
    rw [h] at hbase
    exact hbase (by decide +kernel)
  unfold handleSearch at hrun
  rw [if_neg hroot, if_neg hschema] at hrun
  have hdb := firstCalls_db env boundDn req clock s
  have hattempt : StoreM.attempt (Db.evaluateLdapAcl boundDn .search req.base) clock s =
    (.ok (Db.evaluateLdapAcl boundDn .search req.base clock s).1,
      (Db.evaluateLdapAcl boundDn .search req.base clock s).2) := rfl
  unfold firstCalls at hdb ⊢
  simp only [Bind.bind, StoreM.andThen, attempt_read, hattempt] at hrun hdb ⊢
  generalize Db.evaluateLdapAcl boundDn .search req.base clock s = decision at hrun hdb ⊢
  by_cases hdenied : (!decision.1.toOption.getD true) = true
  · rw [if_pos hdenied] at hrun
    cases hrun
    cases hsuccess
  rw [if_neg hdenied] at hrun
  simp only [serveSearch, Bind.bind, StoreM.andThen, attempt_read] at hrun
  have hread := scopeEntries_run req clock { decision.2 with faults := decision.2.faults.tail }
  rcases hscope : scopeEntries req clock { decision.2 with faults := decision.2.faults.tail }
    with ⟨r, u⟩
  rw [hscope] at hrun hread
  subst hread
  cases hrun
  rw [← hdb]
  exact ⟨_, rfl⟩

/-- The DNs of a reply. -/
def dnsOf (reply : SearchReply) : List String := reply.entries.map (·.dn)

section

variable (hbase : normalizeDn req.base ≠ "") (hplaced : Placed req d)
include hbase hplaced

theorem mem_matching {dn : String} :
    dn ∈ (matching req (listed d req)).map (·.dn) ↔ Wanted d req dn := by
  simp only [matching, List.mem_map, List.mem_filter, mem_listed hbase hplaced]
  constructor
  · rintro ⟨e, ⟨⟨rec, hrec, htree, he⟩, hholds⟩, rfl⟩
    exact ⟨rec, hrec, htree, he ▸ hholds⟩
  · rintro ⟨rec, hrec, htree, hholds⟩
    exact ⟨rec.intoEntry dn, ⟨⟨rec, hrec, htree, rfl⟩, hholds⟩, rfl⟩

theorem ncard_wanted : {dn | Wanted d req dn}.ncard = (matching req (listed d req)).length := by
  have hnodup : ((matching req (listed d req)).map (·.dn)).Nodup :=
    (nodup_listed d req).sublist (List.filter_sublist.map _)
  have hset : {dn | Wanted d req dn} = ↑((matching req (listed d req)).map (·.dn)).toFinset := by
    ext dn
    rw [Set.mem_ofPred_eq, Finset.mem_coe, List.mem_toFinset, mem_matching hbase hplaced]
  rw [hset, Set.ncard_coe_finset, List.toFinset_card_of_nodup hnodup, List.length_map]

end

/-- The root DSE and the schema are answered whatever the filter, the schema in any scope. Of the
other bases a search that succeeds sends entries in scope that match, each once, and all of them if
the read of the entries did not fail and they are not more than the limit. -/
theorem search_complete (env : SearchEnv) (boundDn : Option String) (req : LdapSearchRequest)
    (clock : Nat → Nat) (s : Session Directory) :
    (req.base = "" → req.scope = .base →
      handleSearch env boundDn req clock s = (.ok ⟨env.rootDse req.attrs, ⟨.success, ""⟩⟩, s)) ∧
    (normalizeDn req.base = normalizeDn (subschemaDn env.baseDn) → req.base ≠ "" →
      handleSearch env boundDn req clock s =
        (.ok ⟨env.subschemaSubentry req.attrs, ⟨.success, ""⟩⟩, s)) ∧
    ∀ reply t, normalizeDn req.base ≠ "" →
      normalizeDn req.base ≠ normalizeDn (subschemaDn env.baseDn) →
      Placed req s.db →
      handleSearch env boundDn req clock s = (.ok reply, t) → reply.result.code = .success →
      (dnsOf reply).Nodup ∧
      (∀ r ∈ reply.entries, ∃ rec sub, s.db.entries[r.dn]? = some rec ∧ Wanted s.db req r.dn ∧
        r = searchEntry env (rec.intoEntry r.dn) req.attrs (some sub)) ∧
      ((firstCalls env boundDn req clock s).2.faults.headD false = false →
        {dn | Wanted s.db req dn}.ncard ≤ sizeLimit req →
        ∀ dn, dn ∈ dnsOf reply ↔ Wanted s.db req dn) := by
  refine ⟨fun hroot hscope => ?_, fun hschema hne => ?_, ?_⟩
  · rw [handleSearch, if_pos ⟨hroot, hscope⟩]
    rfl
  · rw [handleSearch, if_neg (fun h => hne h.1), if_pos hschema]
    rfl
  intro reply t hbase hschema hplaced hrun hsuccess
  obtain ⟨sub, hentries⟩ := handleSearch_success hrun hbase hschema hsuccess
  have hdns : dnsOf reply =
      ((matching req (if (firstCalls env boundDn req clock s).2.faults.headD false
        then [] else listed s.db req)).take (sizeLimit req)).map (·.dn) := by
    rw [dnsOf, hentries, List.map_map]
    rfl
  -- What was read is nothing or the entries of the scope.
  have hread : ((matching req (if (firstCalls env boundDn req clock s).2.faults.headD false
      then [] else listed s.db req)).take (sizeLimit req)).Sublist
        (matching req (listed s.db req)) := by
    refine (List.take_sublist _ _).trans (List.Sublist.filter _ ?_)
    split
    · exact List.nil_sublist _
    · exact List.Sublist.refl _
  refine ⟨?_, fun r hr => ?_, fun hok hlimit dn => ?_⟩
  · rw [hdns]
    exact (nodup_listed s.db req).sublist ((hread.trans List.filter_sublist).map _)
  · rw [hentries] at hr
    obtain ⟨e, he, rfl⟩ := List.mem_map.mp hr
    have hwanted := (mem_matching hbase hplaced).mp (List.mem_map_of_mem (hread.subset he))
    obtain ⟨rec, hrec, -, heq⟩ :=
      (mem_listed hbase hplaced).mp (List.mem_filter.mp (hread.subset he)).1
    exact ⟨rec, sub, hrec, hwanted, by rw [heq]; rfl⟩
  · rw [ncard_wanted hbase hplaced] at hlimit
    rw [hdns, hok, if_neg Bool.false_ne_true, List.take_of_length_le hlimit]
    exact mem_matching hbase hplaced

end

/-! ### Three entries in a line -/

namespace Sample

def plainEnv : SearchEnv where
  baseDn := "dc=x"
  domainSid := none
  uuidV5 _ := []
  generalizedTime _ := ""
  rootDse _ := []
  subschemaSubentry _ := [⟨"schema", []⟩]

def entry (rdn : String) (parent : Option String) : EntryRecord where
  rdn := rdn
  parentDn := parent
  objectClasses := ["top"]
  structuralClass := "top"
  attributes := ∅
  enabled := true
  passwordRef := none
  hasChildren := false
  createdAt := 0
  updatedAt := 0
  createdBy := ""
  sourceUuid := none

def rows : List (String × EntryRecord) :=
  [("cn=b,ou=a,dc=x", entry "cn=b" (some "ou=a,dc=x")), ("dc=x", entry "dc=x" none),
    ("ou=a,dc=x", entry "ou=a" (some "dc=x"))]

def directory : Directory := ⟨.ofList rows, [], []⟩

def request (base : String) (scope : LdapSearchScope) (limit : Nat) : LdapSearchRequest :=
  ⟨base, scope, limit, .present "objectClass", []⟩

/-- The DNs and the result code of a reply. -/
def outcome (faults : List Bool) (req : LdapSearchRequest) :
    Option (List String × LdapResultCode) :=
  (handleSearch plainEnv none req (fun _ => 0) ⟨directory, faults, 0⟩).1.toOption.map fun reply =>
    (dnsOf reply, reply.result.code)

/-- The schema is beneath itself, what is deeper is no child, and neither a limit nor a read that
fails is told. -/
theorem success_not_exact :
    outcome [] (request (subschemaDn "dc=x") .oneLevel 0) = some (["schema"], .success) ∧
    outcome [] (request "dc=x" .children 0) = some (["ou=a,dc=x"], .success) ∧
    Under "dc=x" "cn=b,ou=a,dc=x" ∧
    outcome [] (request "dc=x" .subtree 1) = some (["cn=b,ou=a,dc=x"], .success) ∧
    outcome [false, false, true] (request "dc=x" .subtree 0) = some ([], .success) := by
  refine ⟨by decide +kernel, by decide +kernel, ?_, by decide +kernel, by decide +kernel⟩
  exact (inSubtree_iff (by decide)).mp (by decide +kernel)

theorem placed (scope : LdapSearchScope) : Placed (request "dc=x" scope 0) directory := by
  have hdn : normalizeDn (request "dc=x" scope 0).base = "dc=x" :=
    show normalizeDn "dc=x" = "dc=x" by decide +kernel
  have hrows : directory.entries.toList = rows := by decide +kernel
  have hall : ∀ e ∈ rows, e.2.parentDn = some "dc=x" ↔ parentName e.1 = some "dc=x" := by
    decide +kernel
  intro _ dn rec hrec
  rw [hdn]
  exact hall (dn, rec) (hrows ▸ Std.ExtTreeMap.mem_toList_iff_getElem?_eq_some.mpr hrec)

theorem search_complete_subtree : ∀ scope ∈ [LdapSearchScope.subtree, .oneLevel],
    ∃ reply t, handleSearch plainEnv none (request "dc=x" scope 0) (fun _ => 0)
        ⟨directory, [], 0⟩ = (.ok reply, t) ∧
      ∀ dn, dn ∈ dnsOf reply ↔ Wanted directory (request "dc=x" scope 0) dn := by
  intro scope hscope
  have hsuccess : ∀ scope ∈ [LdapSearchScope.subtree, .oneLevel],
      (outcome [] (request "dc=x" scope 0)).map (·.2) = some .success := by decide +kernel
  have hsuccess := hsuccess scope hscope
  have hfew : ∀ scope ∈ [LdapSearchScope.subtree, .oneLevel],
      (matching (request "dc=x" scope 0) (listed directory (request "dc=x" scope 0))).length ≤
        sizeLimit (request "dc=x" scope 0) := by decide +kernel
  have hread : ∀ scope ∈ [LdapSearchScope.subtree, .oneLevel],
      (firstCalls plainEnv none (request "dc=x" scope 0) (fun _ => 0)
        ⟨directory, [], 0⟩).2.faults.headD false = false := by decide +kernel
  have hbase : normalizeDn (request "dc=x" scope 0).base ≠ "" :=
    show normalizeDn "dc=x" ≠ "" by decide +kernel
  have hschema : normalizeDn (request "dc=x" scope 0).base ≠
      normalizeDn (subschemaDn plainEnv.baseDn) :=
    show normalizeDn "dc=x" ≠ normalizeDn (subschemaDn "dc=x") by decide +kernel
  rcases hrun : handleSearch plainEnv none (request "dc=x" scope 0) (fun _ => 0)
    ⟨directory, [], 0⟩ with ⟨reply | reply, t⟩
  · rw [outcome, hrun] at hsuccess
    cases hsuccess
  · rw [outcome, hrun] at hsuccess
    refine ⟨reply, t, rfl, ((search_complete plainEnv none (request "dc=x" scope 0) (fun _ => 0)
      ⟨directory, [], 0⟩).2.2 reply t hbase hschema (placed scope) hrun
      (Option.some.inj hsuccess)).2.2 (hread scope hscope) ?_⟩
    rw [ncard_wanted hbase (placed scope)]
    exact hfew scope hscope

end Sample

end Scope

end Magnetite.Ldap
