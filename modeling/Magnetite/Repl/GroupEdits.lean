import Magnetite.Repl.Groups

/-!
# Local edits of a group reach its partners

A partner that has the links of a group as they were before an edit is sent the links as they are
after it. It shows the same members if every link that says otherwise is outdone by one that is
sent. Adding or removing a single member sees to that. Writing a group anew does not: its links are
of version one again, and the members it drops leave no link at all.
-/
namespace Magnetite.Repl

open Magnetite.Lib.LastWriter

variable {κ : Type}

/-- The group has the member. -/
def shows (links : List StoredLink) (k : String) : Bool :=
  links.any fun l => l.memberSid == k && l.present

theorem shows_iff {links : List StoredLink} {k : String} :
    shows links k ↔ ∃ l ∈ links, l.memberSid = k ∧ l.present := by
  simp [shows]

theorem shows_linksOf (links : List StoredLink) (k : String) :
    shows links k = (linksOf k links).any (·.present) := by
  simp [shows, linksOf, List.any_filter]

/-- A local edit of a group. -/
inductive GroupEdit where
  | upsert (samAccountName : String) (rid : Nat) (memberSidsHex : List String)
  | setMember (memberSidHex : String) (present : Bool)

def Db.editGroup (db : Db κ) (now : Int) (sid : String) : GroupEdit → Option (Db κ)
  | .upsert name rid members => some (db.upsertAdGroup now name rid sid members)
  | .setMember member present => db.setGroupMemberLocal now sid member present

/-- Every partner that had the links of the group shows the members of the group when it has been
sent the links that an edit left, whatever name, identifier and stamp come with them. -/
def Propagates (db : Db κ) (now : Int) (sid : String) (edit : GroupEdit) : Prop :=
  ∀ edited, db.editGroup now sid edit = some edited →
    ∀ peer : Db κ, (∀ l, l ∈ peer.readGroupLinks sid ↔ l ∈ db.readGroupLinks sid) →
      ∀ name rid stamp k,
        shows ((peer.applyReplicatedGroup sid
            ⟨name, rid, edited.readGroupLinks sid, stamp⟩).readGroupLinks sid) k =
          shows (edited.readGroupLinks sid) k

/-! ### What a partner shows -/

theorem shows_mergeLinks (existing incoming : List StoredLink) (k : String) :
    shows (mergeLinks existing incoming) k =
      ((linksOf k incoming).foldl (latest (·.stamp.key)) (linksOf k existing).getLast?).any
        (·.present) := by
  rw [← getElem?_byMember, ← getElem?_foldl_takeLink]
  have keyed := (keyed_byMember existing).foldl_takeLink incoming
  rw [Bool.eq_iff_iff, shows_iff, Option.any_eq_true]
  simp only [mergeLinks, List.mem_map, Prod.exists, exists_eq_right,
    Std.ExtTreeMap.mem_toList_iff_getElem?_eq_some]
  constructor
  · rintro ⟨l, ⟨k', hl⟩, hk, hp⟩
    obtain rfl : k' = k := (keyed k' l hl).symm.trans hk
    exact ⟨l, hl, hp⟩
  · rintro ⟨l, hl, hp⟩
    exact ⟨l, ⟨k, hl⟩, keyed k l hl, hp⟩

/-- From whichever link of a member a partner starts, or from none if there is none, the links that
are sent lead it to what the sender shows. -/
def Leads (old new : List StoredLink) : Prop :=
  ∀ k start, start ∈ (linksOf k old).map some ∨ (linksOf k old = [] ∧ start = none) →
    ((linksOf k new).foldl (latest (·.stamp.key)) start).any (·.present) = shows new k

theorem leads_iff {old new : List StoredLink} :
    Leads old new ↔ ∀ peer : List StoredLink, (∀ l, l ∈ peer ↔ l ∈ old) →
      ∀ k, shows (mergeLinks peer new) k = shows new k := by
  have sameLinks {peer : List StoredLink} (same : ∀ l, l ∈ peer ↔ l ∈ old) (k : String) :
      ∀ l, l ∈ linksOf k peer ↔ l ∈ linksOf k old := fun l => by simp [same]
  constructor
  · intro h peer same k
    rw [shows_mergeLinks]
    refine h k _ ?_
    cases hlast : (linksOf k peer).getLast? with
    | none =>
      refine .inr ⟨List.eq_nil_iff_forall_not_mem.mpr fun l hl => ?_, rfl⟩
      rw [← sameLinks same, List.getLast?_eq_none_iff.mp hlast] at hl
      simp at hl
    | some l =>
      exact .inl (List.mem_map_of_mem ((sameLinks same k l).mp (List.mem_of_getLast? hlast)))
  · intro h k start hstart
    rcases hstart with hstart | ⟨hnil, rfl⟩
    · -- the partner lists this link last
      obtain ⟨l, hl, rfl⟩ := List.mem_map.mp hstart
      obtain ⟨hold, hk⟩ := mem_linksOf.mp hl
      have := h (old ++ [l]) (fun l' => by simp; rintro rfl; exact hold) k
      rwa [shows_mergeLinks, linksOf_append, linksOf_cons, if_pos hk, List.getLast?_append] at this
    · have := h old (fun l => Iff.rfl) k
      rwa [shows_mergeLinks, hnil] at this

theorem propagates_iff_leads {db edited : Db κ} {now : Int} {sid : String} {edit : GroupEdit}
    (h : db.editGroup now sid edit = some edited) :
    Propagates db now sid edit ↔ Leads (db.readGroupLinks sid) (edited.readGroupLinks sid) := by
  have read (peer : Db κ) (u : GroupUpdate) : (peer.applyReplicatedGroup sid u).readGroupLinks sid =
      mergeLinks (peer.readGroupLinks sid) u.incoming := by
    rw [Db.readGroupLinks, groups_applyReplicatedGroup, Option.elim_some]
  rw [leads_iff]
  constructor
  · intro hp peer same k
    let stored : Db κ := { db with groups := db.groups.insert sid ⟨"", 0, peer⟩ }
    have hstored : stored.readGroupLinks sid = peer := by simp [stored, Db.readGroupLinks]
    have := hp edited h stored (by simpa [hstored] using same) "" 0 ⟨0, 0, 0, 0, 0⟩ k
    rwa [read, hstored] at this
  · intro hl edited' h' peer same name rid stamp k
    obtain rfl := Option.some.inj (h.symm.trans h')
    rw [read]
    exact hl _ same k

/-! ### A group written anew -/

section Upsert

/-- The key of the links of a group that is written at the given time. -/
def Db.freshKey (db : Db κ) (now : Int) : ℕ ×ₗ ℤ ×ₗ ℕ :=
  toLex (1, toLex (now, db.invocationId.toNat))

/-- Every link held before is of a member of the group and says so or is older than the new links,
or it is of no member and says so. -/
def Db.UpsertOutdoes (db : Db κ) (now : Int) (sid : String) (members : List String) : Prop :=
  ∀ l ∈ db.readGroupLinks sid,
    if l.memberSid ∈ members then l.present ∨ l.stamp.key < db.freshKey now else l.present = false

/-- The links of a group that was written anew. -/
structure Fresh (key : ℕ ×ₗ ℤ ×ₗ ℕ) (members : List String) (links : List StoredLink) : Prop where
  mem : ∀ l ∈ links, l.memberSid ∈ members ∧ l.present ∧ l.stamp.key = key
  all : ∀ k ∈ members, ∃ l ∈ links, l.memberSid = k

theorem fresh_upsertAdGroup (db : Db κ) (now : Int) (name : String) (rid : Nat) (sid : String)
    (members : List String) :
    Fresh (db.freshKey now) members ((db.upsertAdGroup now name rid sid members).readGroupLinks sid)
    := by
  have general : ∀ (rest done : List String) (links : List StoredLink) (db' : Db κ),
      db'.invocationId = db.invocationId → Fresh (db.freshKey now) done links →
      Fresh (db.freshKey now) (done ++ rest) (rest.foldl
        (fun acc memberSid =>
          (acc.1 ++ [{ memberSid, present := true, version := 1,
                       originatingDsa := acc.2.allocateUsn.2.invocationId,
                       originatingUsn := acc.2.allocateUsn.1, originatingTime := now }],
            acc.2.allocateUsn.2)) (links, db')).1 := by
    intro rest
    induction rest with
    | nil =>
      intro done links db' _ h
      simpa using h
    | cons m rest ih =>
      intro done links db' hdsa h
      rw [List.foldl_cons, List.append_cons]
      refine ih _ _ _ hdsa ⟨fun l hl => ?_, fun k hk => ?_⟩
      · rcases List.mem_append.mp hl with hl | hl
        · obtain ⟨hm, hp⟩ := h.mem l hl
          exact ⟨List.mem_append_left _ hm, hp⟩
        · obtain rfl := List.mem_singleton.mp hl
          refine ⟨by simp, rfl, ?_⟩
          simp [StoredLink.stamp, ReplStamp.key, Db.freshKey, Db.allocateUsn, hdsa]
      · rcases List.mem_append.mp hk with hk | hk
        · obtain ⟨l, hl, he⟩ := h.all k hk
          exact ⟨l, List.mem_append_left _ hl, he⟩
        · exact ⟨_, List.mem_append_right _ (List.mem_singleton_self _),
            (List.mem_singleton.mp hk).symm⟩
  have := general members [] [] db rfl ⟨by simp, by simp⟩
  rw [Db.readGroupLinks, Db.upsertAdGroup, Std.ExtTreeMap.getElem?_insert_self]
  exact this

theorem Fresh.leads_iff {key : ℕ ×ₗ ℤ ×ₗ ℕ} {members : List String} {old new : List StoredLink}
    (h : Fresh key members new) :
    Leads old new ↔ ∀ l ∈ old,
      if l.memberSid ∈ members then l.present ∨ l.stamp.key < key else l.present = false := by
  have shown : ∀ k, shows new k = true ↔ k ∈ members := by
    intro k
    rw [shows_iff]
    constructor
    · rintro ⟨l, hl, rfl, -⟩
      exact (h.mem l hl).1
    · intro hk
      obtain ⟨l, hl, he⟩ := h.all k hk
      exact ⟨l, hl, he, (h.mem l hl).2.1⟩
  have none : ∀ k, k ∉ members → linksOf k new = [] := by
    intro k hk
    refine List.eq_nil_iff_forall_not_mem.mpr fun l hl => hk ?_
    obtain ⟨hnew, rfl⟩ := mem_linksOf.mp hl
    exact (h.mem l hnew).1
  constructor
  · intro hleads l hl
    have lead := hleads l.memberSid (some l) (.inl (List.mem_map_of_mem (by simp [hl])))
    by_cases hk : l.memberSid ∈ members
    · rw [if_pos hk]
      refine or_iff_not_imp_right.mpr fun hkey => ?_
      -- none of the new links is later, so that the old one stays
      have kept := (isLatest_foldl (fun l : StoredLink => l.stamp.key) (some l)
        (linksOf l.memberSid new)).keep l rfl fun v hv => by
          rw [(h.mem v (mem_linksOf.mp hv).1).2.2]
          exact not_lt.mp hkey
      rw [kept, (shown _).mpr hk] at lead
      simpa using lead
    · rw [if_neg hk]
      rw [none _ hk, Bool.eq_false_iff.mpr (mt (shown _).mp hk)] at lead
      simpa using lead
  · intro hold k start hstart
    by_cases hk : k ∈ members
    · obtain ⟨new₁, hnew₁, hk₁⟩ := h.all k hk
      have isLatest := isLatest_foldl (fun l : StoredLink => l.stamp.key) start (linksOf k new)
      obtain ⟨r, hr, hle⟩ := isLatest.top new₁ (.inr (by simp [hnew₁, hk₁]))
      rw [(shown k).mpr hk, Option.any_eq_true]
      refine ⟨r, hr, ?_⟩
      rcases isLatest.mem r hr with hmem | hmem
      · -- an old link stays only if it shows the member
        obtain ⟨l, hl, he⟩ := List.mem_map.mp (hstart.resolve_right
          (by rintro ⟨-, rfl⟩; simp at hmem))
        obtain rfl : l = r := Option.some.inj (he.trans hmem)
        obtain ⟨hmem_old, rfl⟩ := mem_linksOf.mp hl
        have := hold l hmem_old
        rw [if_pos hk] at this
        refine this.resolve_right (not_lt.mpr ?_)
        rwa [(h.mem new₁ hnew₁).2.2] at hle
      · exact (h.mem r (mem_linksOf.mp hmem).1).2.1
    · rw [none k hk, Bool.eq_false_iff.mpr (mt (shown k).mp hk)]
      rcases hstart with hstart | ⟨-, rfl⟩
      · obtain ⟨l, hl, rfl⟩ := List.mem_map.mp hstart
        obtain ⟨hmem_old, rfl⟩ := mem_linksOf.mp hl
        simpa [hk] using hold l hmem_old
      · rfl

end Upsert

/-! ### One member added or removed -/

section SetMember

theorem linksOf_mergeSort (k : String) (links : List StoredLink) :
    linksOf k (links.mergeSort fun a b => a.memberSid ≤ b.memberSid) = linksOf k links := by
  refine (List.Sublist.eq_of_length ?_ ?_).symm
  · have sorted : (linksOf k links).Pairwise fun a b => decide (a.memberSid ≤ b.memberSid) := by
      refine List.pairwise_of_forall_mem_list fun a ha b hb => ?_
      simp [(mem_linksOf.mp ha).2, (mem_linksOf.mp hb).2]
    have := (List.sublist_mergeSort (by simpa using fun a b c => String.le_trans)
      (by simpa using fun a b => String.le_total _ _) sorted List.filter_sublist).filter
        (·.memberSid == k)
    simpa [linksOf] using this
  · exact ((List.mergeSort_perm _ _).filter _).length_eq.symm

theorem linksOf_setLink (k : String) (links : List StoredLink) (link : StoredLink) :
    linksOf k (Db.setLink links link) =
      linksOf k (link :: links.eraseP (·.memberSid == link.memberSid)) := by
  unfold Db.setLink
  by_cases hany : links.any (·.memberSid == link.memberSid)
  · rw [if_pos hany]
    induction links with
    | nil => simp at hany
    | cons l links ih =>
      by_cases hl : l.memberSid = link.memberSid
      · simp [List.replaceF, hl]
      · have replaced : (l :: links).replaceF
            (fun l => if l.memberSid == link.memberSid then some link else none) =
            l :: links.replaceF fun l =>
              if l.memberSid == link.memberSid then some link else none := by
          simp [List.replaceF, hl]
        have := ih (by simpa [hl] using hany)
        rw [replaced, List.eraseP_cons_of_neg (by simpa using hl), linksOf_cons, this]
        by_cases hk : l.memberSid = k
        · subst hk
          simp [linksOf_cons, Ne.symm hl]
        · simp [linksOf_cons, hk]
  · rw [if_neg hany, List.eraseP_of_forall_not (by simpa using hany), linksOf_append, linksOf_cons,
      linksOf_cons]
    by_cases hk : link.memberSid = k
    · subst hk
      have : linksOf link.memberSid links = [] := by simpa [linksOf] using hany
      rw [this]
      simp [linksOf]
    · simp [hk, linksOf]

/-- The link that adds or removes the member, among the given links. -/
def Db.localLink (db : Db κ) (now : Int) (links : List StoredLink) (member : String)
    (present : Bool) : StoredLink where
  memberSid := member
  present := present
  version := (links.find? (·.memberSid == member)).elim 1 (·.version + 1)
  originatingDsa := db.invocationId
  originatingUsn := db.highestUsn + 1
  originatingTime := now

/-- The link takes the place of the first one of its member; the others stay. -/
theorem readGroupLinks_setGroupMemberLocal {db edited : Db κ} {now : Int} {sid member : String}
    {present : Bool} (h : db.setGroupMemberLocal now sid member present = some edited) (k : String) :
    linksOf k (edited.readGroupLinks sid) =
      linksOf k (db.localLink now (db.readGroupLinks sid) member present ::
        (db.readGroupLinks sid).eraseP (·.memberSid == member)) := by
  obtain ⟨group, hgroup, h⟩ := Option.bind_eq_some_iff.mp h
  obtain rfl := Option.some.inj h
  have read : db.readGroupLinks sid = group.memberLinks := by simp [Db.readGroupLinks, hgroup]
  rw [read]
  refine Eq.trans ?_ (linksOf_setLink k group.memberLinks
    (db.localLink now group.memberLinks member present))
  simp only [Db.readGroupLinks, Db.writeGroupStamped, Std.ExtTreeMap.getElem?_insert_self,
    Option.elim_some]
  exact linksOf_mergeSort k _

/-- A link that differs from what is shown is outdone by one that is sent. -/
def Outdone (sent : List StoredLink) (l : StoredLink) : Prop :=
  l.present = shows sent l.memberSid ∨
    ∃ l' ∈ sent, l'.memberSid = l.memberSid ∧ l'.present = shows sent l.memberSid ∧
      l.stamp.key < l'.stamp.key

/-- Every link held before and the new one are outdone where they differ from what is shown. The new
link can only differ if the member had several links; it then does no harm either if it is not later
than any of them. -/
def SetOutdoes (old : List StoredLink) (link : StoredLink) : Prop :=
  let sent := link :: old.eraseP (·.memberSid == link.memberSid)
  (∀ l ∈ old, Outdone sent l) ∧
    (Outdone sent link ∨ ∀ l ∈ old, l.memberSid = link.memberSid → link.stamp.key ≤ l.stamp.key)

theorem Leads.congr {old new new' : List StoredLink} (h : ∀ k, linksOf k new = linksOf k new') :
    Leads old new ↔ Leads old new' := by
  unfold Leads
  simp only [shows_linksOf, h]

/-- What is left is not outdone by anything that was sent. -/
theorem Outdone.present_eq {sent : List StoredLink} {l : StoredLink} (h : Outdone sent l)
    (top : ∀ v ∈ linksOf l.memberSid sent, v.stamp.key ≤ l.stamp.key) :
    l.present = shows sent l.memberSid := by
  refine h.resolve_right ?_
  rintro ⟨l', hl', hk, -, hlt⟩
  exact absurd hlt (not_lt.mpr (top l' (by simp [hl', hk])))

theorem SetOutdoes.leads {old : List StoredLink} {link : StoredLink} (h : SetOutdoes old link) :
    Leads old (link :: old.eraseP (·.memberSid == link.memberSid)) := by
  obtain ⟨hold, hlink⟩ := h
  intro k start hstart
  generalize hsent : link :: old.eraseP (·.memberSid == link.memberSid) = sent at *
  have sub : ∀ l ∈ sent, l = link ∨ l ∈ old := by
    subst hsent
    exact fun l hl => (List.mem_cons.mp hl).imp_right List.mem_of_mem_eraseP
  rcases hstart with hstart | ⟨hnil, rfl⟩
  · obtain ⟨l, hl, rfl⟩ := List.mem_map.mp hstart
    have isLatest := isLatest_foldl (fun l : StoredLink => l.stamp.key) (some l) (linksOf k sent)
    obtain ⟨r, hr, -⟩ := isLatest.top l (.inl rfl)
    rw [hr] at isLatest ⊢
    have top : ∀ v ∈ linksOf k sent, v.stamp.key ≤ r.stamp.key := fun v hv => by
      obtain ⟨t, ht, hle⟩ := isLatest.top v (.inr hv)
      rwa [Option.some.inj ht]
    rw [Option.any_some]
    obtain ⟨hl_old, hk⟩ := mem_linksOf.mp hl
    rcases isLatest.eq_or_lt with rfl | ⟨hmem, hlt⟩
    · subst hk
      exact (hold r hl_old).present_eq top
    · obtain ⟨hr_sent, rfl⟩ := mem_linksOf.mp hmem
      rcases sub r hr_sent with rfl | hr_old
      · refine (hlink.resolve_right fun hle => ?_).present_eq top
        exact absurd hlt (not_lt.mpr (hle l hl_old hk))
      · exact (hold r hr_old).present_eq top
  · -- no link of the member was held: the new one is the only one, if it is one of the member
    rw [shows_linksOf, ← hsent, linksOf_cons]
    have rest : linksOf k (old.eraseP (·.memberSid == link.memberSid)) = [] := by
      refine List.eq_nil_iff_forall_not_mem.mpr fun l hl => ?_
      obtain ⟨hl, hk⟩ := mem_linksOf.mp hl
      have : l ∈ linksOf k old := by simp [List.mem_of_mem_eraseP hl, hk]
      simp [hnil] at this
    rw [rest]
    split_ifs <;> simp [latest]

theorem Leads.setOutdoes {old : List StoredLink} {link : StoredLink}
    (h : Leads old (link :: old.eraseP (·.memberSid == link.memberSid))) : SetOutdoes old link := by
  unfold SetOutdoes
  generalize hsent : link :: old.eraseP (·.memberSid == link.memberSid) = sent at *
  have reached : ∀ l ∈ old, ∃ r, (linksOf l.memberSid sent).foldl (latest (·.stamp.key)) (some l) =
      some r ∧ r.present = shows sent l.memberSid := by
    intro l hl
    obtain ⟨r, hr, -⟩ := (isLatest_foldl (fun l : StoredLink => l.stamp.key) (some l)
      (linksOf l.memberSid sent)).top l (.inl rfl)
    have := h l.memberSid (some l) (.inl (List.mem_map_of_mem (by simp [hl])))
    rw [hr] at this
    exact ⟨r, hr, by simpa using this⟩
  have outdone {k : String} {l r : StoredLink} {links : List StoredLink}
      (hlinks : ∀ v ∈ links, v ∈ linksOf k sent) (hk : l.memberSid = k)
      (hr : links.foldl (latest (·.stamp.key)) (some l) = some r)
      (hshown : r.present = shows sent k) : Outdone sent l := by
    have isLatest := isLatest_foldl (fun l : StoredLink => l.stamp.key) (some l) links
    rw [hr] at isLatest
    subst hk
    rcases isLatest.eq_or_lt with rfl | ⟨hmem, hlt⟩
    · exact .inl hshown
    · obtain ⟨hmem, hk⟩ := mem_linksOf.mp (hlinks r hmem)
      exact .inr ⟨r, hmem, hk, hshown, hlt⟩
  refine ⟨fun l hl => ?_, or_iff_not_imp_right.mpr fun hlater => ?_⟩
  · obtain ⟨r, hr, hshown⟩ := reached l hl
    exact outdone (fun _ => id) rfl hr hshown
  · -- from an older link the new one is reached first, and then what is sent after it
    push Not at hlater
    obtain ⟨l, hl, hk, hlt⟩ := hlater
    obtain ⟨r, hr, hshown⟩ := reached l hl
    rw [← hsent, hk, linksOf_cons, if_pos rfl, List.foldl_cons, latest,
      if_pos (by simpa using hlt)] at hr
    rw [hk] at hshown
    refine outdone (fun v hv => ?_) rfl hr hshown
    rw [← hsent, linksOf_cons, if_pos rfl]
    exact List.mem_cons_of_mem _ hv

end SetMember

/-- The links held before, and the link that the edit writes, are outdone where they differ from
what the group shows after it. -/
def Db.EditOutdoes (db : Db κ) (now : Int) (sid : String) : GroupEdit → Prop
  | .upsert _ _ members => db.UpsertOutdoes now sid members
  | .setMember member present => ∀ group, db.groups[sid]? = some group →
      SetOutdoes group.memberLinks (db.localLink now group.memberLinks member present)

theorem propagates_setMember_iff {db : Db κ} {now : Int} {sid member : String} {present : Bool}
    {group : AdGroupRecord} (hgroup : db.groups[sid]? = some group) :
    Propagates db now sid (.setMember member present) ↔
      SetOutdoes group.memberLinks (db.localLink now group.memberLinks member present) := by
  obtain ⟨edited, hset⟩ :
      ∃ edited, db.setGroupMemberLocal now sid member present = some edited := by
    simp [Db.setGroupMemberLocal, hgroup]
  have hedit : db.editGroup now sid (.setMember member present) = some edited := hset
  have read : db.readGroupLinks sid = group.memberLinks := by simp [Db.readGroupLinks, hgroup]
  rw [propagates_iff_leads hedit, Leads.congr (readGroupLinks_setGroupMemberLocal hset), read]
  exact ⟨Leads.setOutdoes, SetOutdoes.leads⟩

/-- A local edit of a group reaches its partners exactly if it outdoes the links they hold. -/
theorem propagates_iff (db : Db κ) (now : Int) (sid : String) (edit : GroupEdit) :
    Propagates db now sid edit ↔ db.EditOutdoes now sid edit := by
  cases edit with
  | upsert name rid members =>
    rw [propagates_iff_leads rfl, (fresh_upsertAdGroup db now name rid sid members).leads_iff]
    rfl
  | setMember member present =>
    cases hgroup : db.groups[sid]? with
    | none =>
      refine iff_of_true (fun edited h => ?_) fun group h => ?_
      · simp [Db.editGroup, Db.setGroupMemberLocal, hgroup] at h
      · simp [hgroup] at h
    | some group =>
      rw [propagates_setMember_iff hgroup]
      simp only [Db.EditOutdoes, hgroup, Option.some.injEq, forall_eq']

section Sample

/-- A group with one member. -/
def sampleGroup : Db Nat :=
  { (Db.new 1 : Db Nat) with
    groups := (∅ : Std.ExtTreeMap String AdGroupRecord).insert "0105b0"
      ⟨"Engineers", 1200, [⟨"0105a1", true, 1, 1, 1, 10⟩]⟩ }

/-- Writing the group anew without the member leaves it a member at the partners. -/
theorem dropped_member_stays :
    ¬ Propagates sampleGroup 20 "0105b0" (.upsert "Engineers" 1200 []) := by
  intro h
  have := h _ rfl sampleGroup (fun _ => Iff.rfl) "Engineers" 1200 ⟨1, 10, 1, 1, 1⟩ "0105a1"
  revert this
  decide +kernel

end Sample

end Magnetite.Repl
