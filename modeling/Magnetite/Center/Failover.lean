import Mathlib.Data.String.Basic
import Magnetite.Lib.FirstMatch

/-!
# The failover decision

What the center decides about one cluster from the outcome of the last polls: which server to take
for the active primary, which to promote or demote, and which to fence. The empty text stands for no
server, so identifiers are not empty.
-/
namespace Magnetite.Center

open Magnetite.Lib

/-- The role that a server is designated for. -/
inductive RoleIntent where
  | primary | standby | unset
deriving DecidableEq

/-- A command to a server. -/
inductive Action where
  | promote (sid : String)
  | demote (sid : String)
deriving DecidableEq

structure ServerView where
  sid : String
  intent : RoleIntent
  /-- Reachable at the last poll. -/
  healthy : Bool
  consecutiveFailures : ℕ
  fenced : Bool
  /-- It reports to be the primary of a domain. -/
  actsPrimary : Bool
deriving DecidableEq

structure ClusterView where
  autoFailover : Bool
  failureThreshold : ℕ
  activePrimary : Option String
  servers : List ServerView

structure Decision where
  actions : List Action
  /-- The active primary to record, if it changes. -/
  newActivePrimary : Option String
  fence : List String
  unfence : List String
  log : List String
deriving DecidableEq

namespace Decision

def empty : Decision := ⟨[], none, [], [], []⟩

def isEmpty (d : Decision) : Bool :=
  d.actions.isEmpty && d.newActivePrimary.isNone && d.fence.isEmpty && d.unfence.isEmpty

end Decision

def findServer (servers : List ServerView) (sid : String) : Option ServerView :=
  servers.find? (·.sid == sid)

/-- The number of missed polls after which a server is down. -/
def ClusterView.threshold (view : ClusterView) : ℕ := max view.failureThreshold 1

/-- The recorded active primary, or a healthy designated one if there is none. -/
def resolveActive (view : ClusterView) : Option String × Decision :=
  match view.activePrimary with
  | some sid => (some sid, .empty)
  | none =>
    match view.servers.find? fun s => s.intent = .primary && s.healthy with
    | some p => (some p.sid, { Decision.empty with newActivePrimary := some p.sid })
    | none => (none, .empty)

/-- A server that is not in the cluster is not down. -/
def activeDown (view : ClusterView) (active : Option String) : Bool :=
  ((active.bind (findServer view.servers)).map fun s =>
    !s.healthy && view.threshold ≤ s.consecutiveFailures).getD false

def candidates (view : ClusterView) : List ServerView :=
  sortByKey (·.sid) (view.servers.filter fun s => s.intent = .standby && s.healthy && !s.fenced)

/-- The first healthy standby takes the place of an active primary that is down. -/
def autoPromote (view : ClusterView) (active : Option String) (d : Decision) :
    Option String × Decision :=
  if activeDown view active then
    match (candidates view).head? with
    | some standby =>
      let old := active.getD ""
      (some standby.sid,
        { d with
          actions := d.actions ++ [.promote standby.sid]
          newActivePrimary := some standby.sid
          fence := if old = "" then d.fence else d.fence ++ [old]
          log := d.log ++ ["auto-failover: primary " ++ old ++ " down ≥" ++
            toString view.threshold ++ " polls → promoted standby " ++ standby.sid] })
    | none => (active,
        { d with
          log := d.log ++ ["auto-failover: active primary down but no healthy standby available"] })
  else (active, d)

/-- A fenced server that is back gives up its role and its fence. -/
def fenceOnReturn (activeSid : String) (d : Decision) (s : ServerView) : Decision :=
  if s.fenced && s.healthy && s.sid != activeSid then
    { d with
      actions := if s.actsPrimary then d.actions ++ [.demote s.sid] else d.actions
      unfence := d.unfence ++ [s.sid]
      log := d.log ++ ["fencing: former primary " ++ s.sid ++ " recovered → demoted to secondary"] }
  else d

/-- A server that acts as primary beside the active one is demoted, once. -/
def splitBrainGuard (activeSid : String) (d : Decision) (s : ServerView) : Decision :=
  if s.healthy && s.actsPrimary && s.sid != activeSid && !s.fenced &&
      !d.actions.contains (.demote s.sid) then
    { d with
      actions := d.actions ++ [.demote s.sid]
      log := d.log ++ ["split-brain guard: " ++ s.sid ++
        " acts as primary but is not the active primary → demoted"] }
  else d

def evaluate (view : ClusterView) : Decision :=
  if !view.autoFailover then .empty
  else
    let resolved := resolveActive view
    let elected := autoPromote view resolved.1 resolved.2
    let activeSid := elected.1.getD ""
    view.servers.foldl (splitBrainGuard activeSid)
      (view.servers.foldl (fenceOnReturn activeSid) elected.2)

/-! ## What is decided -/

section Elect

variable {view : ClusterView}

def ClusterView.Distinct (view : ClusterView) : Prop := (view.servers.map (·.sid)).Nodup

/-- A server that counts as down. -/
def ClusterView.Down (view : ClusterView) (s : ServerView) : Prop :=
  s.healthy = false ∧ view.threshold ≤ s.consecutiveFailures

/-- A server that may be promoted. -/
def ServerView.Ready (s : ServerView) : Prop :=
  s.intent = .standby ∧ s.healthy = true ∧ s.fenced = false

theorem mem_candidates {s : ServerView} : s ∈ candidates view ↔ s ∈ view.servers ∧ s.Ready := by
  simp [candidates, sortByKey, List.mem_insertionSort, ServerView.Ready, and_assoc]

theorem findServer_sid {s : ServerView} (hdistinct : view.Distinct) (hs : s ∈ view.servers) :
    findServer view.servers s.sid = some s := by
  cases hf : findServer view.servers s.sid with
  | none => simpa using List.find?_eq_none.mp hf s hs
  | some t =>
    have hsid : t.sid = s.sid := by simpa using List.find?_some hf
    rw [List.inj_on_of_nodup_map hdistinct (List.mem_of_find?_eq_some hf) hs hsid]

theorem activeDown_iff {active : Option String} :
    activeDown view active ↔
      ∃ sid s, active = some sid ∧ findServer view.servers sid = some s ∧ view.Down s := by
  cases active with
  | none => simp [activeDown]
  | some sid =>
    cases hf : findServer view.servers sid with
    | none => simp [activeDown, hf]
    | some s => simp [activeDown, hf, ClusterView.Down]

/-- How the active primary is found: it stays what is recorded, a healthy designated primary is
recorded where there was none, or a standby replaces one that is down. -/
inductive Elected (view : ClusterView) : Option String × Decision → Prop where
  | stays {log : List String} :
    Elected view (view.activePrimary, { Decision.empty with log })
  | recorded {p : ServerView} (none_recorded : view.activePrimary = none)
    (mem : p ∈ view.servers) (healthy : p.healthy = true) :
    Elected view (some p.sid, { Decision.empty with newActivePrimary := some p.sid })
  | replaced {old new : ServerView} {log : List String} (old_mem : old ∈ view.servers)
    (old_recorded : view.activePrimary = some old.sid) (down : view.Down old)
    (new_mem : new ∈ view.servers) (ready : new.Ready) :
    Elected view (some new.sid,
      ⟨[.promote new.sid], some new.sid, if old.sid = "" then [] else [old.sid], [], log⟩)

theorem elected (hdistinct : view.Distinct) :
    Elected view (autoPromote view (resolveActive view).1 (resolveActive view).2) := by
  unfold resolveActive
  split
  · rename_i sid hactive
    dsimp only
    unfold autoPromote
    split_ifs with hdown
    · obtain ⟨_, old, ⟨⟩, hfind, hold_down⟩ := activeDown_iff.mp hdown
      have hold : old ∈ view.servers := List.mem_of_find?_eq_some hfind
      obtain rfl : old.sid = sid := by simpa using List.find?_some hfind
      split
      · rename_i new hhead
        obtain ⟨hnew, hready⟩ := mem_candidates.mp (List.mem_of_head? hhead)
        exact .replaced hold hactive hold_down hnew hready
      · rw [← hactive]
        exact .stays
    · rw [← hactive]
      exact .stays
  · rename_i hactive
    split
    · rename_i p hfind
      have hp : p ∈ view.servers := List.mem_of_find?_eq_some hfind
      have hfound : p.intent = .primary ∧ p.healthy = true := by simpa using List.find?_some hfind
      -- what was just recorded is healthy, so it is not down
      have hup : activeDown view (some p.sid) = false := by
        rw [Bool.eq_false_iff, ne_eq, activeDown_iff]
        rintro ⟨_, s, ⟨⟩, hs, hdown⟩
        obtain rfl := Option.some.inj ((findServer_sid hdistinct hp).symm.trans hs)
        simp [ClusterView.Down, hfound.2] at hdown
      simp only [autoPromote, hup]
      exact .recorded hactive hp hfound.2
    · have hup : activeDown view none = false := rfl
      simp only [autoPromote, hup]
      rw [← hactive]
      exact .stays

end Elect

/-! ## The two passes of demotion -/

section Demote

/-- The servers that the first pass demotes. -/
def returned (activeSid : String) (servers : List ServerView) : List ServerView :=
  servers.filter fun s => s.fenced && s.healthy && s.sid != activeSid

/-- The servers that the second pass demotes. -/
def strays (activeSid : String) (servers : List ServerView) : List ServerView :=
  servers.filter fun s => s.healthy && s.actsPrimary && s.sid != activeSid && !s.fenced

def demotions (servers : List ServerView) : List Action := servers.map fun s => .demote s.sid

theorem foldl_fenceOnReturn (activeSid : String) (servers : List ServerView) (d : Decision) :
    let r := servers.foldl (fenceOnReturn activeSid) d
    r.actions = d.actions ++ demotions ((returned activeSid servers).filter (·.actsPrimary)) ∧
      r.newActivePrimary = d.newActivePrimary ∧ r.fence = d.fence ∧
      r.unfence = d.unfence ++ (returned activeSid servers).map (·.sid) := by
  induction servers generalizing d with
  | nil => simp [returned, demotions]
  | cons s servers ih =>
    obtain ⟨hactions, hnew, hfence, hunfence⟩ := ih (fenceOnReturn activeSid d s)
    simp only [List.foldl_cons]
    refine ⟨hactions.trans ?_, hnew.trans ?_, hfence.trans ?_, hunfence.trans ?_⟩
    all_goals
      simp only [fenceOnReturn, returned]
      cases hback : s.fenced && s.healthy && s.sid != activeSid <;>
        cases hacts : s.actsPrimary <;> simp [hback, hacts, demotions]

/-- With distinct identifiers, no stray has been demoted before its turn. -/
theorem foldl_splitBrainGuard {activeSid : String} {servers : List ServerView}
    (hdistinct : (servers.map (·.sid)).Nodup) {d : Decision}
    (hfresh : ∀ s ∈ strays activeSid servers, .demote s.sid ∉ d.actions) :
    let r := servers.foldl (splitBrainGuard activeSid) d
    r.actions = d.actions ++ demotions (strays activeSid servers) ∧
      r.newActivePrimary = d.newActivePrimary ∧ r.fence = d.fence ∧ r.unfence = d.unfence := by
  induction servers generalizing d with
  | nil => simp [strays, demotions]
  | cons s servers ih =>
    rw [List.map_cons, List.nodup_cons] at hdistinct
    rw [List.foldl_cons]
    cases hstray : s.healthy && s.actsPrimary && s.sid != activeSid && !s.fenced with
    | false =>
      have hstrays : strays activeSid (s :: servers) = strays activeSid servers := by
        simp [strays, hstray]
      have hguard : splitBrainGuard activeSid d s = d := by simp [splitBrainGuard, hstray]
      rw [hstrays] at hfresh ⊢
      rw [hguard]
      exact ih hdistinct.2 hfresh
    | true =>
      have hstrays : strays activeSid (s :: servers) = s :: strays activeSid servers := by
        simp [strays, hstray]
      rw [hstrays, List.forall_mem_cons] at hfresh
      have hguard : (splitBrainGuard activeSid d s).actions = d.actions ++ [.demote s.sid] ∧
          (splitBrainGuard activeSid d s).newActivePrimary = d.newActivePrimary ∧
          (splitBrainGuard activeSid d s).fence = d.fence ∧
          (splitBrainGuard activeSid d s).unfence = d.unfence := by
        simp [splitBrainGuard, hstray, hfresh.1]
      have hrest : ∀ t ∈ strays activeSid servers,
          .demote t.sid ∉ (splitBrainGuard activeSid d s).actions := by
        intro t ht
        have hne : t.sid ≠ s.sid := fun he =>
          hdistinct.1 (he ▸ List.mem_map_of_mem (List.mem_of_mem_filter ht))
        simp [hguard.1, hfresh.2 t ht, hne]
      obtain ⟨hactions, hnew, hfence, hunfence⟩ := ih hdistinct.2 hrest
      refine ⟨hactions.trans ?_, hnew.trans hguard.2.1, hfence.trans hguard.2.2.1,
        hunfence.trans hguard.2.2.2⟩
      simp [hguard.1, hstrays, demotions]

end Demote

/-! ## Decisions are safe -/

/-- The active primary that is recorded once the decision is carried out. -/
def ClusterView.resulting (view : ClusterView) (d : Decision) : Option String :=
  d.newActivePrimary <|> view.activePrimary

/-- The commands of a decision, with the election that it starts from. -/
structure Decided (view : ClusterView) (active : Option String) (d₀ d : Decision) : Prop where
  found : autoPromote view (resolveActive view).1 (resolveActive view).2 = (active, d₀)
  elected : Elected view (active, d₀)
  actions : d.actions = d₀.actions ++
    (demotions ((returned (active.getD "") view.servers).filter (·.actsPrimary)) ++
      demotions (strays (active.getD "") view.servers))
  newActivePrimary : d.newActivePrimary = d₀.newActivePrimary
  fence : d.fence = d₀.fence
  unfence : d.unfence = (returned (active.getD "") view.servers).map (·.sid)

theorem decided {view : ClusterView} (hauto : view.autoFailover = true) (hdistinct : view.Distinct) :
    ∃ active d₀, Decided view active d₀ (evaluate view) := by
  have helected := elected hdistinct
  rcases he : autoPromote view (resolveActive view).1 (resolveActive view).2 with ⟨active, d₀⟩
  rw [he] at helected
  have hplain : (∀ s, .demote s ∉ d₀.actions) ∧ d₀.unfence = [] := by
    cases helected with
    | stays => exact ⟨by simp [Decision.empty], rfl⟩
    | recorded => exact ⟨by simp [Decision.empty], rfl⟩
    | replaced => exact ⟨by simp, rfl⟩
  have hreturn := foldl_fenceOnReturn (active.getD "") view.servers d₀
  have hfresh : ∀ s ∈ strays (active.getD "") view.servers, .demote s.sid ∉
      (view.servers.foldl (fenceOnReturn (active.getD "")) d₀).actions := by
    intro s hs
    rw [hreturn.1, List.mem_append, not_or]
    refine ⟨hplain.1 s.sid, fun hmem => ?_⟩
    -- it would be both fenced and not fenced
    obtain ⟨t, ht, hsid⟩ := List.mem_map.mp hmem
    have ht' := List.mem_filter.mp (List.mem_of_mem_filter ht)
    have hs' := List.mem_filter.mp hs
    have hts : t = s :=
      List.inj_on_of_nodup_map hdistinct ht'.1 hs'.1 (by simpa using hsid)
    subst hts
    simp_all
  have hguard := foldl_splitBrainGuard hdistinct hfresh
  refine ⟨active, d₀, he, helected, ?_, ?_, ?_, ?_⟩
  all_goals simp only [evaluate, hauto, Bool.not_true, Bool.false_eq_true, if_false, he]
  · rw [hguard.1, hreturn.1, List.append_assoc]
  · rw [hguard.2.1, hreturn.2.1]
  · rw [hguard.2.2.1, hreturn.2.2.1]
  · rw [hguard.2.2.2, hreturn.2.2.2, hplain.2, List.nil_append]

theorem Decided.resulting {view : ClusterView} {active : Option String} {d₀ d : Decision}
    (h : Decided view active d₀ d) : view.resulting d = active := by
  rw [ClusterView.resulting, h.newActivePrimary]
  cases h.elected with
  | stays => rfl
  | recorded => rfl
  | replaced => rfl

def Decision.promoted (d : Decision) : List String :=
  d.actions.filterMap fun
    | .promote sid => some sid
    | .demote _ => none

theorem promoted_demotions (servers : List ServerView) :
    (demotions servers).filterMap (fun | .promote sid => some sid | .demote _ => none) =
      ([] : List String) := by
  simp [demotions]

theorem Decided.promoted {view : ClusterView} {active : Option String} {d₀ d : Decision}
    (h : Decided view active d₀ d) : d.promoted = d₀.promoted := by
  rw [Decision.promoted, h.actions, List.filterMap_append, List.filterMap_append,
    promoted_demotions, promoted_demotions, List.append_nil, List.append_nil]
  rfl

/-- The demoted servers are the healthy ones that act as primary and are not the active one. -/
theorem Decided.demote_mem {view : ClusterView} {active : Option String} {d₀ d : Decision}
    (h : Decided view active d₀ d) {sid : String} (hd : .demote sid ∈ d.actions) :
    ∃ s ∈ view.servers, s.sid = sid ∧ s.healthy = true ∧ s.actsPrimary = true ∧
      sid ≠ active.getD "" := by
  rw [h.actions, List.mem_append, List.mem_append] at hd
  rcases hd with hd | hd | hd
  · cases h.elected <;> simp [Decision.empty] at hd
  · obtain ⟨s, hs, ⟨⟩⟩ := List.mem_map.mp hd
    have hback := List.mem_filter.mp (List.mem_of_mem_filter hs)
    have hacts := (List.mem_filter.mp hs).2
    simp only [Bool.and_eq_true, bne_iff_ne] at hback
    exact ⟨s, hback.1, rfl, hback.2.1.2, hacts, hback.2.2⟩
  · obtain ⟨s, hs, ⟨⟩⟩ := List.mem_map.mp hd
    have hstray := List.mem_filter.mp hs
    simp only [Bool.and_eq_true, bne_iff_ne] at hstray
    exact ⟨s, hstray.1, rfl, hstray.2.1.1.1, hstray.2.1.1.2, hstray.2.1.2⟩

theorem count_demotions {servers : List ServerView} (hdistinct : (servers.map (·.sid)).Nodup)
    (p : ServerView → Bool) {s : ServerView} (hs : s ∈ servers) :
    (demotions (servers.filter p)).count (.demote s.sid) = if p s then 1 else 0 := by
  have hnodup : (demotions (servers.filter p)).Nodup := by
    have hmap : demotions (servers.filter p) = ((servers.filter p).map (·.sid)).map .demote := by
      simp [demotions]
    rw [hmap]
    exact ((List.filter_sublist.map _).nodup hdistinct).map fun _ _ h => by simpa using h
  rw [hnodup.count]
  refine if_congr ?_ rfl rfl
  constructor
  · intro hmem
    obtain ⟨t, ht, he⟩ := List.mem_map.mp hmem
    obtain ⟨ht, hp⟩ := List.mem_filter.mp ht
    rwa [← List.inj_on_of_nodup_map hdistinct ht hs (by simpa using he)]
  · exact fun hp => List.mem_map_of_mem (List.mem_filter.mpr ⟨hs, hp⟩)

/-- Every such server is demoted once. -/
theorem Decided.demote_count {view : ClusterView} {active : Option String} {d₀ d : Decision}
    (h : Decided view active d₀ d) (hdistinct : view.Distinct) {s : ServerView}
    (hs : s ∈ view.servers) (hhealthy : s.healthy = true) (hacts : s.actsPrimary = true)
    (hne : s.sid ≠ active.getD "") : d.actions.count (.demote s.sid) = 1 := by
  have hnone : d₀.actions.count (.demote s.sid) = 0 := by
    cases h.elected <;> simp [Decision.empty]
  rw [h.actions, List.count_append, List.count_append, hnone, returned, List.filter_filter, strays,
    count_demotions hdistinct _ hs, count_demotions hdistinct _ hs]
  cases s.fenced <;> simp [hhealthy, hacts, hne]

/-- A decision about servers with distinct identifiers, none of them empty: at most one server is
promoted, and only one that is ready; the recorded active primary changes only if there was none or
it is down; whatever else acts as primary is demoted once, and never the active primary, whose fence
also stays; and a primary that is replaced is fenced. -/
theorem evaluate_safe {view : ClusterView} (hauto : view.autoFailover = true)
    (hdistinct : view.Distinct) (hnamed : ∀ s ∈ view.servers, s.sid ≠ "") :
    let d := evaluate view
    (d.promoted.length ≤ 1 ∧ ∀ sid ∈ d.promoted, ∃ s ∈ view.servers, s.sid = sid ∧ s.Ready) ∧
    (d.newActivePrimary ≠ none → view.activePrimary = none ∨
      ∃ s ∈ view.servers, view.activePrimary = some s.sid ∧ view.Down s) ∧
    (∀ s ∈ view.servers, s.healthy = true → s.actsPrimary = true →
      view.resulting d ≠ some s.sid → d.actions.count (.demote s.sid) = 1) ∧
    (∀ sid, view.resulting d = some sid → .demote sid ∉ d.actions ∧ sid ∉ d.unfence) ∧
    (∀ old new, view.activePrimary = some old → d.newActivePrimary = some new → old ∈ d.fence) := by
  obtain ⟨active, d₀, h⟩ := decided hauto hdistinct
  dsimp only
  refine ⟨?_, ?_, ?_, ?_, ?_⟩
  · rw [h.promoted]
    cases h.elected with
    | stays => simp [Decision.promoted, Decision.empty]
    | recorded => simp [Decision.promoted, Decision.empty]
    | replaced _ _ _ hnew hready => exact ⟨by simp [Decision.promoted], by
        simpa [Decision.promoted] using ⟨_, hnew, rfl, hready⟩⟩
  · rw [h.newActivePrimary]
    cases h.elected with
    | stays => simp [Decision.empty]
    | recorded hnone => exact fun _ => .inl hnone
    | replaced hold hactive hdown => exact fun _ => .inr ⟨_, hold, hactive, hdown⟩
  · intro s hs hhealthy hacts hne
    rw [h.resulting] at hne
    refine h.demote_count hdistinct hs hhealthy hacts ?_
    cases active with
    | none => exact hnamed s hs
    | some sid => exact fun he => hne (by rw [he]; rfl)
  · intro sid hsid
    rw [h.resulting] at hsid
    subst hsid
    refine ⟨fun hd => ?_, fun hu => ?_⟩
    · obtain ⟨_, -, -, -, -, hne⟩ := h.demote_mem hd
      exact hne rfl
    · rw [h.unfence] at hu
      obtain ⟨s, hs, rfl⟩ := List.mem_map.mp hu
      simpa using (List.mem_filter.mp hs).2
  · intro old new hactive hnew
    rw [h.newActivePrimary] at hnew
    rw [h.fence]
    cases h.elected with
    | stays => simp [Decision.empty] at hnew
    | recorded hnone => simp [hnone] at hactive
    | replaced hold hrecorded =>
      obtain rfl := Option.some.inj (hrecorded.symm.trans hactive)
      simp [hnamed _ hold]

section Sample

/-- The recorded primary has missed three polls, and a former primary is back. -/
def sampleCluster : ClusterView where
  autoFailover := true
  failureThreshold := 3
  activePrimary := some "a"
  servers := [⟨"a", .primary, false, 3, false, false⟩, ⟨"b", .standby, true, 0, false, false⟩,
    ⟨"c", .standby, true, 0, true, true⟩]

theorem evaluate_safe_sample :
    (evaluate sampleCluster).actions = [.promote "b", .demote "c"] ∧
      (evaluate sampleCluster).promoted.length ≤ 1 ∧ "a" ∈ (evaluate sampleCluster).fence := by
  have hsafe := @evaluate_safe sampleCluster rfl (by unfold ClusterView.Distinct; decide)
    (by decide)
  exact ⟨by decide, hsafe.1.1, hsafe.2.2.2.2 "a" "b" rfl (by decide)⟩

/-- A server with the empty identifier acts as primary and is not demoted, though no active primary
is recorded. -/
def emptyCluster : ClusterView := ⟨true, 3, none, [⟨"", .standby, true, 0, false, true⟩]⟩

theorem empty_identifier_spared :
    emptyCluster.Distinct ∧ emptyCluster.resulting (evaluate emptyCluster) = none ∧
      ∃ s ∈ emptyCluster.servers, s.healthy = true ∧ s.actsPrimary = true ∧
        (evaluate emptyCluster).actions.count (.demote s.sid) = 0 :=
  ⟨by unfold ClusterView.Distinct; decide, by decide, by decide⟩

end Sample

end Magnetite.Center
