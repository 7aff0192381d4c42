import Magnetite.Lib.LastWriter
import Magnetite.Repl.Store

/-!
# Groups converge link by link

The links of a group are registers in which the last writer wins, one for each member, so that
replicated changes leave the same links in whatever order they arrive. The name and the identifier
of the group are not: every change that arrives replaces them, whatever its stamp.
-/
namespace Magnetite.Repl

open Magnetite.Lib.LastWriter

variable {κ : Type}

/-! ### Links by member -/

/-- The links of one member. -/
def linksOf (k : String) (links : List StoredLink) : List StoredLink :=
  links.filter (·.memberSid == k)

@[simp] theorem mem_linksOf {k : String} {links : List StoredLink} {l : StoredLink} :
    l ∈ linksOf k links ↔ l ∈ links ∧ l.memberSid = k := by
  simp [linksOf]

@[simp] theorem linksOf_append (k : String) (links links' : List StoredLink) :
    linksOf k (links ++ links') = linksOf k links ++ linksOf k links' := by
  simp [linksOf]

theorem linksOf_cons (k : String) (l : StoredLink) (links : List StoredLink) :
    linksOf k (l :: links) = if l.memberSid = k then l :: linksOf k links else linksOf k links := by
  simp [linksOf, List.filter_cons]

/-- The link that is held for a member is the last one listed. -/
theorem getElem?_byMember (links : List StoredLink) (k : String) :
    (byMember links)[k]? = (linksOf k links).getLast? := by
  have general : ∀ m : Std.ExtTreeMap String StoredLink,
      (links.foldl (fun m l => m.insert l.memberSid l) m)[k]? =
        ((linksOf k links).getLast?).or m[k]? := by
    induction links with
    | nil => simp [linksOf]
    | cons l links ih =>
      intro m
      rw [List.foldl_cons, ih, Std.ExtTreeMap.getElem?_insert, linksOf_cons]
      simp only [Std.compare_eq_iff_eq]
      by_cases hk : l.memberSid = k
      · rw [if_pos hk, if_pos hk, List.getLast?_cons]
        cases (linksOf k links).getLast? <;> simp
      · rw [if_neg hk, if_neg hk]
  exact (general ∅).trans (by simp)

/-- Each link is stored under its member. -/
def Keyed (m : Std.ExtTreeMap String StoredLink) : Prop := 
  ∀ (k : String) (l : StoredLink), m[k]? = some l → l.memberSid = k

theorem keyed_byMember (links : List StoredLink) : Keyed (byMember links) := by
  intro k l hl
  rw [getElem?_byMember] at hl
  exact (mem_linksOf.mp (List.mem_of_getLast? hl)).2

theorem getElem?_takeLink (m : Std.ExtTreeMap String StoredLink) (inc : StoredLink) (k : String) :
    (takeLink m inc)[k]? =
      if inc.memberSid = k then latest (·.stamp.key) m[k]? inc else m[k]? := by
  unfold takeLink latest ReplStamp.winsOver
  by_cases hk : inc.memberSid = k
  · subst hk
    split_ifs <;> simp_all
  · split_ifs <;> simp [hk, Std.ExtTreeMap.getElem?_insert]

/-- Merging links is merging the links of each member. -/
theorem getElem?_foldl_takeLink (m : Std.ExtTreeMap String StoredLink) (incoming : List StoredLink)
    (k : String) :
    (incoming.foldl takeLink m)[k]? = (linksOf k incoming).foldl (latest (·.stamp.key)) m[k]? := by
  induction incoming generalizing m with
  | nil => rfl
  | cons inc incoming ih =>
    rw [List.foldl_cons, ih, getElem?_takeLink, linksOf_cons]
    by_cases hk : inc.memberSid = k
    · simp only [if_pos hk, List.foldl_cons]
    · simp only [if_neg hk]

theorem Keyed.foldl_takeLink {m : Std.ExtTreeMap String StoredLink} (h : Keyed m)
    (incoming : List StoredLink) : Keyed (incoming.foldl takeLink m) := by
  intro k l hl
  rw [getElem?_foldl_takeLink] at hl
  rcases (isLatest_foldl (fun l : StoredLink => l.stamp.key) _ _).mem l hl with hl | hl
  · exact h k l hl
  · exact (mem_linksOf.mp hl).2

/-- Writing the links out and reading them back loses nothing. -/
theorem Keyed.byMember_values {m : Std.ExtTreeMap String StoredLink} (h : Keyed m) :
    byMember (m.toList.map Prod.snd) = m := by
  refine Std.ExtTreeMap.ext_getElem? fun k => ?_
  have mem : ∀ l, l ∈ linksOf k (m.toList.map Prod.snd) ↔ m[k]? = some l := by
    intro l
    simp only [mem_linksOf, List.mem_map, Prod.exists, exists_eq_right,
      Std.ExtTreeMap.mem_toList_iff_getElem?_eq_some]
    constructor
    · rintro ⟨⟨k', hl⟩, hk⟩
      rwa [← hk, h k' l hl]
    · exact fun hl => ⟨⟨k, hl⟩, h k l hl⟩
  rw [getElem?_byMember]
  cases hlast : (linksOf k (m.toList.map Prod.snd)).getLast? with
  | none =>
    cases hm : m[k]? with
    | none => rfl
    | some l =>
      have := (mem l).mpr hm
      rw [List.getLast?_eq_none_iff.mp hlast] at this
      simp at this
  | some l => exact ((mem l).mp (List.mem_of_getLast? hlast)).symm

theorem byMember_mergeLinks (existing incoming : List StoredLink) :
    byMember (mergeLinks existing incoming) = incoming.foldl takeLink (byMember existing) :=
  ((keyed_byMember existing).foldl_takeLink incoming).byMember_values

/-! ### Any order -/

/-- The changes of one group that arrive one after the other. -/
def Db.applyGroups (db : Db κ) (sid : String) (us : List GroupUpdate) : Db κ :=
  us.foldl (·.applyReplicatedGroup sid ·) db

theorem groups_applyReplicatedGroup (db : Db κ) (sid : String) (u : GroupUpdate) :
    (db.applyReplicatedGroup sid u).groups[sid]? =
      some ⟨u.samAccountName, u.rid, mergeLinks (db.readGroupLinks sid) u.incoming⟩ := by
  simp [Db.applyReplicatedGroup, Db.writeGroupStamped]

theorem byMember_applyReplicatedGroup (db : Db κ) (sid : String) (u : GroupUpdate) :
    byMember ((db.applyReplicatedGroup sid u).readGroupLinks sid) =
      u.incoming.foldl takeLink (byMember (db.readGroupLinks sid)) := by
  rw [Db.readGroupLinks, groups_applyReplicatedGroup]
  exact byMember_mergeLinks _ _

/-- A run of changes merges all their links into those held at its start. -/
theorem byMember_applyGroups (db : Db κ) (sid : String) (us : List GroupUpdate) :
    byMember ((db.applyGroups sid us).readGroupLinks sid) =
      (us.flatMap (·.incoming)).foldl takeLink (byMember (db.readGroupLinks sid)) := by
  induction us generalizing db with
  | nil => rfl
  | cons u us ih =>
    rw [List.flatMap_cons, List.foldl_append, ← byMember_applyReplicatedGroup]
    exact ih _

/-- The last change to arrive gives its name and identifier to the group. -/
theorem groups_applyGroups_concat (db : Db κ) (sid : String) (us : List GroupUpdate)
    (u : GroupUpdate) :
    (db.applyGroups sid (us ++ [u])).groups[sid]? =
      some ⟨u.samAccountName, u.rid,
        ((us ++ [u]).flatMap (·.incoming)).foldl takeLink (byMember (db.readGroupLinks sid))
          |>.toList.map Prod.snd⟩ := by
  rw [List.flatMap_append, List.foldl_append, ← byMember_applyGroups, Db.applyGroups,
    List.foldl_append]
  simp [groups_applyReplicatedGroup, mergeLinks, Db.applyGroups]

/-- Changes with the same stamp have the same name and identifier, and links of a member with the
same stamp are the same link. -/
structure ConsistentGroups (us : List GroupUpdate) : Prop where
  object : ∀ u ∈ us, ∀ v ∈ us, u.remoteStamp.key = v.remoteStamp.key →
    u.samAccountName = v.samAccountName ∧ u.rid = v.rid
  links : ∀ l ∈ us.flatMap (·.incoming), ∀ l' ∈ us.flatMap (·.incoming),
    l.memberSid = l'.memberSid → l.stamp.key = l'.stamp.key → l = l'

/-- Any arrival of the changes leaves the same group, and for each member the latest link. -/
def GroupConverges (db : Db κ) (sid : String) (us : List GroupUpdate) : Prop :=
  ∀ us', (∀ u, u ∈ us' ↔ u ∈ us) →
    (db.applyGroups sid us').groups[sid]? = (db.applyGroups sid us).groups[sid]? ∧
    ∀ k, IsLatest (·.stamp.key) (byMember (db.readGroupLinks sid))[k]?
      (linksOf k (us.flatMap (·.incoming)))
      (byMember ((db.applyGroups sid us').readGroupLinks sid))[k]?

/-- The links that a set of changes leaves do not depend on their order. -/
theorem ConsistentGroups.foldl_takeLink {us us' : List GroupUpdate} (h : ConsistentGroups us)
    (same : ∀ u, u ∈ us' ↔ u ∈ us) (m : Std.ExtTreeMap String StoredLink) :
    (us'.flatMap (·.incoming)).foldl takeLink m = (us.flatMap (·.incoming)).foldl takeLink m := by
  refine Std.ExtTreeMap.ext_getElem? fun k => ?_
  rw [getElem?_foldl_takeLink, getElem?_foldl_takeLink]
  refine (foldl_latest_congr (fun l => ?_) fun l hl l' hl' hkey => ?_).symm
  · simp only [mem_linksOf, List.mem_flatMap, same]
  · rw [mem_linksOf] at hl hl'
    exact h.links l hl.1 l' hl'.1 (hl.2.trans hl'.2.symm) hkey

/-- Replicated changes of a group converge exactly if they agree on its name and identifier. -/
theorem groupConverges_iff (db : Db κ) (sid : String) (us : List GroupUpdate)
    (consistent : ConsistentGroups us) :
    GroupConverges db sid us ↔
      ∀ u ∈ us, ∀ v ∈ us, u.samAccountName = v.samAccountName ∧ u.rid = v.rid := by
  constructor
  · -- each change arrives once more at the end
    intro h u hu v hv
    have last (w : GroupUpdate) (hw : w ∈ us) : ∀ x, x ∈ us ++ [w] ↔ x ∈ us := by
      intro x
      simp only [List.mem_append, List.mem_singleton, or_iff_left_iff_imp]
      rintro rfl
      exact hw
    have same := (h _ (last u hu)).1.trans (h _ (last v hv)).1.symm
    rw [groups_applyGroups_concat, groups_applyGroups_concat] at same
    simp only [Option.some.injEq, AdGroupRecord.mk.injEq] at same
    exact ⟨same.1, same.2.1⟩
  · intro h us' same
    refine ⟨?_, fun k => ?_⟩
    · rcases List.eq_nil_or_concat us with rfl | ⟨init, u, rfl⟩
      · obtain rfl : us' = [] := List.eq_nil_iff_forall_not_mem.mpr fun u => by simp [same]
        rfl
      · rcases List.eq_nil_or_concat us' with rfl | ⟨init', u', rfl⟩
        · exact absurd ((same u).mpr (by simp)) (by simp)
        · obtain ⟨hname, hrid⟩ := h u' ((same u').mp (by simp)) u (by simp)
          simp only [List.concat_eq_append] at same consistent ⊢
          rw [groups_applyGroups_concat, groups_applyGroups_concat, hname, hrid,
            consistent.foldl_takeLink same]
    · rw [byMember_applyGroups, consistent.foldl_takeLink same, getElem?_foldl_takeLink]
      exact isLatest_foldl _ _ _

section Sample

/-- A change of a group that was renamed, with one link. -/
def groupChange (name : String) (version : UInt32) (time : Int) (member : String) : GroupUpdate where
  samAccountName := name
  rid := 1200
  incoming := [⟨member, true, 1, 2, time, time⟩]
  remoteStamp := ⟨version, time, 2, time, 0⟩

/-- The group was renamed after it got its first member. -/
def sampleRenamed : List GroupUpdate :=
  [groupChange "Engineers" 1 10 "0105a1", groupChange "Engineering" 2 20 "0105a2"]

/-- When the older change arrives last, the group has its old name again. -/
theorem older_group_name_stored :
    ConsistentGroups sampleRenamed ∧ ¬ GroupConverges (Db.new 1 : Db Nat) "0105b0" sampleRenamed := by
  refine ⟨⟨by decide, by decide⟩, fun h => ?_⟩
  have := (h sampleRenamed.reverse (by simp)).1
  revert this
  decide +kernel

/-- The group keeps its name while members are added. -/
def sampleGrowing : List GroupUpdate :=
  [groupChange "Engineers" 1 10 "0105a1", groupChange "Engineers" 1 10 "0105a2"]

theorem groupConverges_iff_sample :
    ConsistentGroups sampleGrowing ∧ GroupConverges (Db.new 1 : Db Nat) "0105b0" sampleGrowing := by
  have consistent : ConsistentGroups sampleGrowing := ⟨by decide, by decide⟩
  exact ⟨consistent, (groupConverges_iff _ _ _ consistent).mpr (by decide)⟩

end Sample

end Magnetite.Repl
