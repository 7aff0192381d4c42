import Magnetite.Lib.Rows
import Magnetite.Lib.System
import Magnetite.Center.Failover

/-!
# Failover over the history of a cluster

The store of the center with its clusters and servers, the polls and edits that change it, and the
passes that carry the decisions out. A pass is taken as one step. Over every history, a pass demotes
the healthy servers that act as primary beside the active one, even if that leaves none, and it
promotes a standby as soon as the active primary, still registered, has missed enough polls.
-/
namespace Magnetite.Center

open Magnetite.Lib

/-- What a server reports about one of its domains. -/
structure DomainHealth where
  role : String
  enabled : Bool
deriving DecidableEq

structure ServerRecord where
  sid : String
  clusterRef : Option String
  lastOk : Bool
  lastHealth : Option (List DomainHealth)
  intent : RoleIntent
  fenced : Bool
  consecutiveFailures : ℕ
deriving DecidableEq

structure ClusterRecord where
  cid : String
  autoFailover : Bool
  failureThreshold : ℕ
  activePrimary : Option String
deriving DecidableEq

structure CenterDb where
  clusters : List ClusterRecord
  servers : List ServerRecord
deriving DecidableEq

def CenterDb.empty : CenterDb := ⟨[], []⟩

def defaultThreshold : ℕ := 3

/-! ## The store -/

def ClusterRecord.threshold (c : ClusterRecord) : ℕ :=
  if c.failureThreshold = 0 then defaultThreshold else c.failureThreshold

/-- A managed domain reports the primary role. -/
def actsPrimary (lastHealth : Option (List DomainHealth)) : Bool :=
  (lastHealth.map fun domains => domains.any fun d => d.role == "primary" && d.enabled).getD false

def ServerRecord.view (s : ServerRecord) : ServerView where
  sid := s.sid
  intent := s.intent
  healthy := s.lastOk
  consecutiveFailures := s.consecutiveFailures
  fenced := s.fenced
  actsPrimary := Center.actsPrimary s.lastHealth

namespace CenterDb

def members (db : CenterDb) (cid : String) : List ServerRecord :=
  db.servers.filter (·.clusterRef = some cid)

def view (db : CenterDb) (c : ClusterRecord) : ClusterView where
  autoFailover := c.autoFailover
  failureThreshold := c.threshold
  activePrimary := c.activePrimary
  servers := (db.members c.cid).map ServerRecord.view

def clusterViews (db : CenterDb) : List (String × ClusterView) :=
  db.clusters.map fun c => (c.cid, db.view c)

def createCluster (db : CenterDb) (cid : String) : CenterDb :=
  { db with clusters := db.clusters ++ [⟨cid, false, defaultThreshold, none⟩] }

/-- An unknown cluster is rejected. -/
def registerServer (db : CenterDb) (sid : String) (cluster : Option String) : Option CenterDb :=
  if cluster.all fun cid => db.clusters.any (·.cid = cid) then
    some { db with servers := db.servers ++ [⟨sid, cluster, false, none, .unset, false, 0⟩] }
  else none

/-- The row goes; a cluster that has it for its active primary keeps the reference. -/
def deleteServer (db : CenterDb) (sid : String) : CenterDb :=
  { db with servers := Rows.delete (·.sid) sid db.servers }

def updateServer (db : CenterDb) (sid : String) (f : ServerRecord → ServerRecord) : CenterDb :=
  { db with servers := Rows.update (·.sid) sid f db.servers }

def updateCluster (db : CenterDb) (cid : String) (f : ClusterRecord → ClusterRecord) : CenterDb :=
  { db with clusters := Rows.update (·.cid) cid f db.clusters }

/-- The outcome of a poll: what the server reports, or nothing when it cannot be reached. -/
def recordHealth (db : CenterDb) (sid : String) (health : Option (List DomainHealth)) : CenterDb :=
  db.updateServer sid fun s =>
    { s with
      lastOk := health.isSome
      lastHealth := health
      consecutiveFailures := if health.isSome then 0 else s.consecutiveFailures + 1 }

def setIntent (db : CenterDb) (sid : String) (intent : RoleIntent) : CenterDb :=
  db.updateServer sid fun s => { s with intent }

def setFenced (db : CenterDb) (sid : String) (fenced : Bool) : CenterDb :=
  db.updateServer sid fun s => { s with fenced }

def setFailoverPolicy (db : CenterDb) (cid : String) (autoFailover : Bool) (threshold : ℕ) :
    CenterDb :=
  db.updateCluster cid fun c => { c with autoFailover, failureThreshold := max threshold 1 }

def setActivePrimary (db : CenterDb) (cid : String) (sid : Option String) : CenterDb :=
  db.updateCluster cid fun c => { c with activePrimary := sid }

def serverCluster (db : CenterDb) (sid : String) : Option String :=
  (db.servers.find? (·.sid = sid)).bind (·.clusterRef)

/-- A server that was promoted by hand is the active primary of its cluster. -/
def control (db : CenterDb) (sid : String) : CenterDb :=
  (db.serverCluster sid).elim db fun cid => db.setActivePrimary cid (some sid)

/-- The decision about one cluster is carried out; `answer` says which commands succeed. A promotion
that fails holds back what would be stored. -/
def carryOut (answer : Action → Bool) (db : CenterDb) (cid : String) (d : Decision) : CenterDb :=
  if d.isEmpty || !d.promoted.all fun sid => answer (.promote sid) then db
  else
    let db := d.newActivePrimary.elim db fun sid => db.setActivePrimary cid (some sid)
    let db := d.fence.foldl (fun db sid => db.setFenced sid true) db
    d.unfence.foldl (fun db sid => db.setFenced sid false) db

/-- All views are taken before the first decision. -/
def runFailover (db : CenterDb) (answer : Action → Bool) : CenterDb :=
  db.clusterViews.foldl (fun db (cid, view) => db.carryOut answer cid (evaluate view)) db

/-- The recorded active primary of a cluster. -/
def activePrimaryOf (db : CenterDb) (cid : String) : Option String :=
  (db.clusters.find? (·.cid = cid)).bind (·.activePrimary)

end CenterDb

/-! ## Histories -/

inductive Change where
  | createCluster (cid : String)
  | register (sid : String) (cluster : Option String)
  | delete (sid : String)
  | poll (sid : String) (health : Option (List DomainHealth))
  | setIntent (sid : String) (intent : RoleIntent)
  | setPolicy (cid : String) (autoFailover : Bool) (threshold : ℕ)
  /-- An operator promotes a server. -/
  | promote (sid : String)
  | pass (answer : Action → Bool)

/-- Identifiers are made up when a server is registered or a cluster created: none is empty, and
none is in use. -/
def CenterDb.Fresh (db : CenterDb) (sid : String) : Prop :=
  sid ≠ "" ∧ (∀ s ∈ db.servers, s.sid ≠ sid) ∧ ∀ c ∈ db.clusters, c.activePrimary ≠ some sid

instance (db : CenterDb) (sid : String) : Decidable (db.Fresh sid) :=
  inferInstanceAs (Decidable (_ ∧ _ ∧ _))

def CenterDb.next (db : CenterDb) : Change → Option CenterDb
  | .createCluster cid => if ∀ c ∈ db.clusters, c.cid ≠ cid then some (db.createCluster cid) else none
  | .register sid cluster => if db.Fresh sid then db.registerServer sid cluster else none
  | .delete sid => some (db.deleteServer sid)
  | .poll sid health => some (db.recordHealth sid health)
  | .setIntent sid intent => some (db.setIntent sid intent)
  | .setPolicy cid autoFailover threshold => some (db.setFailoverPolicy cid autoFailover threshold)
  | .promote sid => some (db.control sid)
  | .pass answer => some (db.runFailover answer)

def CenterDb.Step (db : CenterDb) (change : Change) (db' : CenterDb) : Prop :=
  db.next change = some db'

/-- How many polls in a row each server has missed. -/
def countMissed (missed : String → ℕ) : Change → String → ℕ
  | .register sid _ => Function.update missed sid 0
  | .poll sid health => Function.update missed sid (if health.isSome then 0 else missed sid + 1)
  | _ => missed

def missedPolls (changes : List Change) : String → ℕ := changes.foldl countMissed fun _ => 0

/-! ## What every history keeps -/

/-- Servers and clusters have names of their own, their counters are those of the polls, and an
active primary that is registered belongs to the cluster. -/
structure Consistent (missed : String → ℕ) (db : CenterDb) : Prop where
  distinct : (db.servers.map (·.sid)).Nodup
  clusters : (db.clusters.map (·.cid)).Nodup
  named : ∀ s ∈ db.servers, s.sid ≠ ""
  count : ∀ s ∈ db.servers, s.consecutiveFailures = missed s.sid
  down : ∀ s ∈ db.servers, 0 < s.consecutiveFailures → s.lastOk = false
  member : ∀ c ∈ db.clusters, ∀ s ∈ db.servers, c.activePrimary = some s.sid →
    s.clusterRef = some c.cid

/-- The columns that the invariant is about. -/
def ServerRecord.polled (s : ServerRecord) : String × Option String × ℕ × Bool :=
  (s.sid, s.clusterRef, s.consecutiveFailures, s.lastOk)

section Keep

variable {missed : String → ℕ} {db db' : CenterDb}

theorem Consistent.congr (h : Consistent missed db)
    (hservers : db'.servers.map ServerRecord.polled = db.servers.map ServerRecord.polled)
    (hclusters : db'.clusters = db.clusters) : Consistent missed db' := by
  have hrow : ∀ t ∈ db'.servers, ∃ s ∈ db.servers, s.polled = t.polled := by
    intro t ht
    have hmem : t.polled ∈ db.servers.map ServerRecord.polled :=
      hservers ▸ List.mem_map_of_mem ht
    exact List.mem_map.mp hmem
  have hsids : db'.servers.map (·.sid) = db.servers.map (·.sid) := by
    have hfst := congrArg (List.map Prod.fst) hservers
    rwa [List.map_map, List.map_map] at hfst
  refine ⟨hsids ▸ h.distinct, hclusters ▸ h.clusters, fun t ht => ?_, fun t ht => ?_,
    fun t ht => ?_, fun c hc t ht => ?_⟩
  all_goals
    obtain ⟨s, hs, he⟩ := hrow t ht
    simp only [ServerRecord.polled, Prod.mk.injEq] at he
    obtain ⟨hsid, hcluster, hcount, hok⟩ := he
  · exact hsid ▸ h.named s hs
  · rw [← hcount, ← hsid]
    exact h.count s hs
  · rw [← hcount, ← hok]
    exact h.down s hs
  · rw [← hsid, ← hcluster]
    exact h.member c (hclusters ▸ hc) s hs

/-- An edit of a column that the invariant is not about. -/
theorem polled_updateServer {f : ServerRecord → ServerRecord} (hf : ∀ s, (f s).polled = s.polled)
    (sid : String) :
    (db.updateServer sid f).servers.map ServerRecord.polled =
      db.servers.map ServerRecord.polled :=
  Rows.map_update hf db.servers

theorem polled_foldl_setFenced (fenced : Bool) (sids : List String) (db : CenterDb) :
    (sids.foldl (fun db sid => db.setFenced sid fenced) db).servers.map ServerRecord.polled =
        db.servers.map ServerRecord.polled ∧
      (sids.foldl (fun db sid => db.setFenced sid fenced) db).clusters = db.clusters := by
  induction sids generalizing db with
  | nil => exact ⟨rfl, rfl⟩
  | cons sid sids ih =>
    obtain ⟨hservers, hclusters⟩ := ih (db.setFenced sid fenced)
    have hset : (db.setFenced sid fenced).servers.map ServerRecord.polled =
        db.servers.map ServerRecord.polled :=
      polled_updateServer (f := fun s => { s with fenced }) (fun _ => rfl) sid
    exact ⟨hservers.trans hset, hclusters⟩

theorem Consistent.createCluster (h : Consistent missed db) {cid : String}
    (hnew : ∀ c ∈ db.clusters, c.cid ≠ cid) : Consistent missed (db.createCluster cid) where
  distinct := h.distinct
  clusters := by
    rw [CenterDb.createCluster, List.map_append, List.nodup_append]
    refine ⟨h.clusters, by simp, fun a ha b hb => ?_⟩
    obtain ⟨c, hc, rfl⟩ := List.mem_map.mp ha
    obtain rfl : b = cid := by simpa using hb
    exact hnew c hc
  named := h.named
  count := h.count
  down := h.down
  member := Rows.forall_mem_insert h.member (by simp)

theorem Consistent.register (h : Consistent missed db) {sid : String} {cluster : Option String}
    (hfresh : db.Fresh sid) (hreg : db.registerServer sid cluster = some db') :
    Consistent (Function.update missed sid 0) db' := by
  obtain ⟨hnamed, hnew, hunused⟩ := hfresh
  unfold CenterDb.registerServer at hreg
  split at hreg
  · obtain rfl := Option.some.inj hreg
    refine ⟨?_, h.clusters, Rows.forall_mem_insert h.named hnamed,
      Rows.forall_mem_insert (fun s hs => ?_) ?_,
      Rows.forall_mem_insert h.down (by simp), fun c hc =>
        Rows.forall_mem_insert (h.member c hc) fun he => absurd he (hunused c hc)⟩
    · rw [List.map_append, List.nodup_append]
      refine ⟨h.distinct, by simp, ?_⟩
      intro a ha b hb
      obtain ⟨s, hs, rfl⟩ := List.mem_map.mp ha
      obtain rfl : b = sid := by simpa using hb
      exact hnew s hs
    · rw [Function.update_of_ne (hnew s hs)]
      exact h.count s hs
    · simp
  · exact absurd hreg (by simp)

theorem Consistent.deleteServer (h : Consistent missed db) (sid : String) :
    Consistent missed (db.deleteServer sid) where
  distinct := (List.filter_sublist.map _).nodup h.distinct
  clusters := h.clusters
  named := Rows.forall_mem_delete h.named
  count := Rows.forall_mem_delete h.count
  down := Rows.forall_mem_delete h.down
  member c hc := Rows.forall_mem_delete (h.member c hc)

theorem Consistent.recordHealth (h : Consistent missed db) (sid : String)
    (health : Option (List DomainHealth)) :
    Consistent (countMissed missed (.poll sid health)) (db.recordHealth sid health) := by
  have hkey : (db.recordHealth sid health).servers.map (·.sid) = db.servers.map (·.sid) := by
    refine Rows.map_update ?_ db.servers
    exact fun _ => rfl
  refine ⟨hkey ▸ h.distinct, h.clusters, ?_, ?_, ?_, fun c hc => ?_⟩
  · exact Rows.forall_mem_update h.named fun s hs _ => h.named s hs
  · intro t ht
    rcases Rows.mem_update.mp ht with ⟨s, hs, rfl, rfl⟩ | ⟨hs, hne⟩
    · simp [countMissed, h.count s hs]
    · rw [countMissed, Function.update_of_ne hne]
      exact h.count t hs
  · refine Rows.forall_mem_update h.down fun s _ _ => ?_
    cases health <;> simp
  · exact Rows.forall_mem_update (h.member c hc) fun s hs _ => h.member c hc s hs

theorem nodup_updateCluster {f : ClusterRecord → ClusterRecord} (hf : ∀ c, (f c).cid = c.cid)
    (cid : String) :
    ((db.updateCluster cid f).clusters.map (·.cid)).Nodup ↔ (db.clusters.map (·.cid)).Nodup := by
  rw [CenterDb.updateCluster, Rows.map_update hf db.clusters]

theorem Consistent.setFailoverPolicy (h : Consistent missed db) (cid : String)
    (autoFailover : Bool) (threshold : ℕ) :
    Consistent missed (db.setFailoverPolicy cid autoFailover threshold) where
  distinct := h.distinct
  clusters := by
    refine (nodup_updateCluster ?_ cid).mpr h.clusters
    exact fun _ => rfl
  named := h.named
  count := h.count
  down := h.down
  member := Rows.forall_mem_update h.member fun c hc _ => h.member c hc

theorem Consistent.setActivePrimary (h : Consistent missed db) {cid sid : String}
    (hmember : ∀ s ∈ db.servers, s.sid = sid → s.clusterRef = some cid) :
    Consistent missed (db.setActivePrimary cid (some sid)) where
  distinct := h.distinct
  clusters := by
    refine (nodup_updateCluster ?_ cid).mpr h.clusters
    exact fun _ => rfl
  named := h.named
  count := h.count
  down := h.down
  member := by
    refine Rows.forall_mem_update h.member ?_
    rintro c - rfl s hs he
    exact hmember s hs (Option.some.inj he).symm

/-- The server that is found under an identifier is the only one with it. -/
theorem Consistent.control (h : Consistent missed db) (sid : String) :
    Consistent missed (db.control sid) := by
  unfold CenterDb.control
  cases hc : db.serverCluster sid with
  | none => exact h
  | some cid =>
    refine h.setActivePrimary fun s hs he => ?_
    obtain ⟨t, ht, hcluster⟩ := Option.bind_eq_some_iff.mp hc
    have hts : t.sid = sid := by simpa using List.find?_some ht
    rwa [← List.inj_on_of_nodup_map h.distinct (List.mem_of_find?_eq_some ht) hs
      (hts.trans he.symm)]

theorem Consistent.view_distinct (h : Consistent missed db) (c : ClusterRecord) :
    (db.view c).Distinct := by
  have hsids : (db.view c).servers.map (·.sid) = (db.members c.cid).map (·.sid) := by
    rw [CenterDb.view, List.map_map]
    rfl
  rw [ClusterView.Distinct, hsids]
  exact (List.filter_sublist.map _).nodup h.distinct

/-- What is recorded as active primary is a server of the cluster. -/
theorem newActivePrimary_mem {view : ClusterView} (hdistinct : view.Distinct) {sid : String}
    (hnew : (evaluate view).newActivePrimary = some sid) : ∃ s ∈ view.servers, s.sid = sid := by
  cases hauto : view.autoFailover with
  | false => simp [evaluate, hauto, Decision.empty] at hnew
  | true =>
    obtain ⟨active, d₀, hd⟩ := decided hauto hdistinct
    rw [hd.newActivePrimary] at hnew
    cases hd.elected with
    | stays => simp [Decision.empty] at hnew
    | recorded _ hp => exact ⟨_, hp, Option.some.inj hnew⟩
    | replaced _ _ _ hp => exact ⟨_, hp, Option.some.inj hnew⟩

/-- Carrying out a decision changes no polled column, and records the active primary of its cluster
or none. -/
theorem Consistent.carryOut (h : Consistent missed db) (answer : Action → Bool) {cid : String}
    {d : Decision}
    (hmember : ∀ sid, d.newActivePrimary = some sid → ∀ s ∈ db.servers, s.sid = sid →
      s.clusterRef = some cid) :
    Consistent missed (db.carryOut answer cid d) ∧
      (db.carryOut answer cid d).servers.map ServerRecord.polled =
        db.servers.map ServerRecord.polled := by
  unfold CenterDb.carryOut
  split_ifs
  · exact ⟨h, rfl⟩
  · dsimp only
    generalize hrec : d.newActivePrimary.elim db (fun sid => db.setActivePrimary cid (some sid)) = db₁
    have hkept : Consistent missed db₁ ∧ db₁.servers = db.servers := by
      cases hnew : d.newActivePrimary with
      | none =>
        rw [hnew] at hrec
        exact hrec ▸ ⟨h, rfl⟩
      | some sid =>
        rw [hnew] at hrec
        exact hrec ▸ ⟨h.setActivePrimary (hmember sid hnew), rfl⟩
    obtain ⟨hfence, hfence'⟩ := polled_foldl_setFenced true d.fence db₁
    obtain ⟨hunfence, hunfence'⟩ := polled_foldl_setFenced false d.unfence
      (d.fence.foldl (fun db sid => db.setFenced sid true) db₁)
    have hall := hunfence.trans hfence
    exact ⟨hkept.1.congr hall (hunfence'.trans hfence'), hall.trans (by rw [hkept.2])⟩

/-- The views stay right about who belongs to which cluster while they are worked off. -/
theorem Consistent.foldl_carryOut (answer : Action → Bool) {views : List (String × ClusterView)}
    (h : Consistent missed db)
    (hmember : ∀ v ∈ views, ∀ sid, (evaluate v.2).newActivePrimary = some sid →
      ∀ s ∈ db.servers, s.sid = sid → s.clusterRef = some v.1) :
    Consistent missed
      (views.foldl (fun db v => db.carryOut answer v.1 (evaluate v.2)) db) := by
  induction views generalizing db with
  | nil => exact h
  | cons v views ih =>
    rw [List.forall_mem_cons] at hmember
    obtain ⟨hkept, hpolled⟩ := h.carryOut answer hmember.1
    refine ih hkept fun w hw sid hsid t ht he => ?_
    obtain ⟨s, hs, hst⟩ := List.mem_map.mp (hpolled ▸ List.mem_map_of_mem ht)
    simp only [ServerRecord.polled, Prod.mk.injEq] at hst
    rw [← hst.2.1]
    exact hmember.2 w hw sid hsid s hs (hst.1.trans he)

theorem Consistent.runFailover (h : Consistent missed db) (answer : Action → Bool) :
    Consistent missed (db.runFailover answer) := by
  refine h.foldl_carryOut answer fun v hv sid hsid s hs he => ?_
  obtain ⟨c, -, rfl⟩ := List.mem_map.mp hv
  obtain ⟨t, ht, rfl⟩ := newActivePrimary_mem (h.view_distinct c) hsid
  obtain ⟨r, hr, rfl⟩ := List.mem_map.mp ht
  have hr' := List.mem_filter.mp hr
  rw [List.inj_on_of_nodup_map h.distinct hs hr'.1 he]
  simpa using hr'.2

/-- One step, with the count of missed polls that goes with it. -/
theorem Consistent.step {change : Change} (h : Consistent missed db) (hstep : db.Step change db') :
    Consistent (countMissed missed change) db' := by
  unfold CenterDb.Step CenterDb.next at hstep
  cases change with
  | register sid cluster =>
    dsimp only at hstep
    split_ifs at hstep with hfresh
    exact h.register hfresh hstep
  | createCluster cid =>
    dsimp only at hstep
    split_ifs at hstep with hnew
    exact Option.some.inj hstep ▸ h.createCluster hnew
  | delete sid => exact Option.some.inj hstep ▸ h.deleteServer sid
  | poll sid health => exact Option.some.inj hstep ▸ h.recordHealth sid health
  | setIntent sid intent =>
    have hset : (db.setIntent sid intent).servers.map ServerRecord.polled =
        db.servers.map ServerRecord.polled :=
      polled_updateServer (f := fun s => { s with intent }) (fun _ => rfl) sid
    exact Option.some.inj hstep ▸ h.congr hset rfl
  | setPolicy cid auto threshold =>
    exact Option.some.inj hstep ▸ h.setFailoverPolicy cid auto threshold
  | promote sid => exact Option.some.inj hstep ▸ h.control sid
  | pass answer => exact Option.some.inj hstep ▸ h.runFailover answer

theorem Consistent.run {changes : List Change} (run : Run CenterDb.Step db changes db')
    (h : Consistent missed db) : Consistent (changes.foldl countMissed missed) db' := by
  induction run generalizing missed with
  | nil => exact h
  | cons hstep _ ih => exact ih (h.step hstep)

end Keep

theorem consistent_empty : Consistent (fun _ => 0) .empty :=
  ⟨List.nodup_nil, List.nodup_nil, by simp [CenterDb.empty], by simp [CenterDb.empty],
    by simp [CenterDb.empty],
    by simp [CenterDb.empty]⟩

/-! ## Passes -/

section Pass

variable {missed : String → ℕ} {db : CenterDb} (answer : Action → Bool) {c : ClusterRecord}

/-- What a decision makes of the row of its cluster. -/
def ClusterRecord.decided (d : Decision) (c : ClusterRecord) : ClusterRecord :=
  if d.promoted.all fun sid => answer (.promote sid) then
    { c with activePrimary := d.newActivePrimary <|> c.activePrimary }
  else c

theorem ClusterRecord.cid_decided (d : Decision) (c : ClusterRecord) :
    (c.decided answer d).cid = c.cid := by
  unfold ClusterRecord.decided
  split <;> rfl

theorem clusters_carryOut (db : CenterDb) (cid : String) (d : Decision) :
    (db.carryOut answer cid d).clusters =
      Rows.update (·.cid) cid (ClusterRecord.decided answer d) db.clusters := by
  have hsame (hd : ∀ c, ClusterRecord.decided answer d c = c) :
      db.clusters = Rows.update (·.cid) cid (ClusterRecord.decided answer d) db.clusters := by
    simp [Rows.update, hd]
  unfold CenterDb.carryOut
  split_ifs with hheld
  · refine hsame fun c => ?_
    rcases Bool.or_eq_true_iff.mp hheld with hempty | hfailed
    · have hnone : d.newActivePrimary = none := by
        simp only [Decision.isEmpty, Bool.and_eq_true, Option.isNone_iff_eq_none] at hempty
        exact hempty.1.1.2
      simp [ClusterRecord.decided, hnone]
    · exact if_neg (by simpa using hfailed)
  · dsimp only
    rw [(polled_foldl_setFenced false _ _).2, (polled_foldl_setFenced true _ _).2]
    have hok : (d.promoted.all fun sid => answer (.promote sid)) = true := by
      simpa using (not_or.mp (Bool.or_eq_true_iff.not.mp hheld)).2
    have hd (c : ClusterRecord) : ClusterRecord.decided answer d c =
        { c with activePrimary := d.newActivePrimary <|> c.activePrimary } := if_pos hok
    cases hnew : d.newActivePrimary with
    | none => exact hsame fun c => by simp [hd, hnew]
    | some sid =>
      exact congrArg (Rows.update _ cid · db.clusters) (funext fun c => by simp [hd, hnew])

/-- A cluster's row when the views are worked off. -/
theorem decided_mem_foldl {views : List (String × ClusterView)} {view : ClusterView}
    (hdistinct : (views.map (·.1)).Nodup) (hview : (c.cid, view) ∈ views) (hc : c ∈ db.clusters) :
    c.decided answer (evaluate view) ∈
      (views.foldl (fun db v => db.carryOut answer v.1 (evaluate v.2)) db).clusters := by
  -- a row that no view is about stays
  have hkept : ∀ (views : List (String × ClusterView)) (db : CenterDb), ∀ c ∈ db.clusters,
      (∀ v ∈ views, v.1 ≠ c.cid) →
      c ∈ (views.foldl (fun db v => db.carryOut answer v.1 (evaluate v.2)) db).clusters := by
    intro views
    induction views with
    | nil => exact fun _ _ hc _ => hc
    | cons v views ih =>
      intro db c hc hother
      rw [List.forall_mem_cons] at hother
      refine ih _ c ?_ hother.2
      rw [clusters_carryOut]
      exact Rows.mem_update.mpr (.inr ⟨hc, hother.1.symm⟩)
  induction views generalizing db with
  | nil => cases hview
  | cons v views ih =>
    obtain ⟨hv, hrest⟩ := List.nodup_cons.mp hdistinct
    rw [List.foldl_cons]
    rcases List.mem_cons.mp hview with rfl | hview
    · refine hkept _ _ _ ?_ fun w hw he => hv (List.mem_map.mpr
        ⟨w, hw, he.trans (c.cid_decided answer _)⟩)
      rw [clusters_carryOut]
      exact Rows.mem_update.mpr (.inl ⟨c, hc, rfl, rfl⟩)
    · refine ih hrest hview ?_
      rw [clusters_carryOut]
      refine Rows.mem_update.mpr (.inr ⟨hc, ?_⟩)
      rintro he
      exact hv (List.mem_map.mpr ⟨_, hview, he⟩)

theorem activePrimaryOf_eq (h : (db.clusters.map (·.cid)).Nodup) (hc : c ∈ db.clusters) :
    db.activePrimaryOf c.cid = c.activePrimary := by
  obtain ⟨t, ht⟩ : ∃ t, db.clusters.find? (·.cid = c.cid) = some t :=
    Option.isSome_iff_exists.mp (List.find?_isSome.mpr ⟨c, hc, by simp⟩)
  have hcid : t.cid = c.cid := by simpa using List.find?_some ht
  rw [CenterDb.activePrimaryOf, ht,
    List.inj_on_of_nodup_map h (List.mem_of_find?_eq_some ht) hc hcid]
  rfl

/-- What is recorded of a cluster after a pass. -/
theorem activePrimaryOf_runFailover (h : Consistent missed db) (hc : c ∈ db.clusters) :
    (db.runFailover answer).activePrimaryOf c.cid =
      (c.decided answer (evaluate (db.view c))).activePrimary := by
  rw [← c.cid_decided answer (evaluate (db.view c))]
  refine activePrimaryOf_eq (h.runFailover answer).clusters (decided_mem_foldl answer ?_ ?_ hc)
  · rw [CenterDb.clusterViews, List.map_map]
    exact h.clusters
  · exact List.mem_map_of_mem hc

end Pass

/-- A standby that can take over. -/
def ServerRecord.Available (s : ServerRecord) : Prop :=
  s.intent = .standby ∧ s.lastOk = true ∧ s.fenced = false

/-- A primary that is down is replaced if there is a standby. -/
theorem Decided.promotes {view : ClusterView} {active : Option String} {d₀ d : Decision}
    (h : Decided view active d₀ d) (hdistinct : view.Distinct) {p : ServerView}
    (hp : p ∈ view.servers) (hactive : view.activePrimary = some p.sid) (hdown : view.Down p)
    (hready : ∃ s ∈ view.servers, s.Ready) :
    ∃ s ∈ view.servers, s.Ready ∧ d.promoted = [s.sid] ∧ view.resulting d = some s.sid := by
  have hactiveDown : activeDown view (some p.sid) = true :=
    activeDown_iff.mpr ⟨p.sid, p, rfl, findServer_sid hdistinct hp, hdown⟩
  obtain ⟨s, hs⟩ : ∃ s, (candidates view).head? = some s := by
    obtain ⟨t, ht, hready⟩ := hready
    cases hc : candidates view with
    | nil => simpa [hc] using mem_candidates.mpr ⟨ht, hready⟩
    | cons s _ => exact ⟨s, rfl⟩
  obtain ⟨hmem, hs'⟩ := mem_candidates.mp (List.mem_of_head? hs)
  have hfound := h.found
  simp only [resolveActive, hactive, autoPromote, hactiveDown, if_true, hs, Prod.mk.injEq]
    at hfound
  obtain ⟨rfl, rfl⟩ := hfound
  exact ⟨s, hmem, hs', h.promoted, h.resulting⟩

/-- A server that is demoted is not the active primary recorded after the pass, whether or not the
promotion succeeded: a primary that is replaced is down. -/
theorem Decided.demoted_not_recorded {db : CenterDb} {c : ClusterRecord} {active : Option String}
    {d₀ d : Decision} (h : Decided (db.view c) active d₀ d) (hdistinct : (db.view c).Distinct)
    (answer : Action → Bool) {sid : String} (hsid : .demote sid ∈ d.actions) :
    (c.decided answer d).activePrimary ≠ some sid := by
  obtain ⟨t, ht, rfl, hhealthy, -, hne⟩ := h.demote_mem hsid
  have hresult : (db.view c).resulting d ≠ some t.sid := by
    rw [h.resulting]
    rintro rfl
    exact hne rfl
  unfold ClusterRecord.decided
  split_ifs with hok
  · exact hresult
  · intro hold
    have hpromoted := h.promoted
    cases h.elected with
    | stays => exact hok (by rw [hpromoted]; rfl)
    | recorded => exact hok (by rw [hpromoted]; rfl)
    | replaced hmem hrecorded hdown =>
      obtain rfl := List.inj_on_of_nodup_map hdistinct ht hmem
        (Option.some.inj (hold.symm.trans hrecorded))
      simp [hdown.1] at hhealthy

/-- After any history, a pass sends a demotion only to healthy servers that act as primary and are
not the active primary recorded after it. It promotes exactly one standby when the recorded active
primary, still registered, has missed enough polls and a standby is available; that standby is the
active primary afterwards if it accepts the command, and else nothing recorded changes. -/
theorem failover_keeps_primary {changes : List Change} {db : CenterDb}
    (run : Run CenterDb.Step .empty changes db) {c : ClusterRecord} (hc : c ∈ db.clusters)
    (hauto : c.autoFailover = true) (answer : Action → Bool) :
    let d := evaluate (db.view c)
    let db' := db.runFailover answer
    (∀ sid, .demote sid ∈ d.actions → db'.activePrimaryOf c.cid ≠ some sid ∧
      ∃ s ∈ db.members c.cid, s.sid = sid ∧ s.lastOk = true ∧ actsPrimary s.lastHealth = true) ∧
    ∀ p ∈ db.servers, c.activePrimary = some p.sid →
      (db.view c).threshold ≤ missedPolls changes p.sid → (∃ s ∈ db.members c.cid, s.Available) →
        ∃ s ∈ db.members c.cid, s.Available ∧ d.promoted = [s.sid] ∧
          db'.activePrimaryOf c.cid = some (if answer (.promote s.sid) then s.sid else p.sid) := by
  have h : Consistent (missedPolls changes) db := Consistent.run run consistent_empty
  have hview : (db.view c).autoFailover = true := hauto
  obtain ⟨active, d₀, hd⟩ := decided hview (h.view_distinct c)
  dsimp only
  rw [activePrimaryOf_runFailover answer h hc]
  refine ⟨fun sid hsid => ?_, fun p hp hactive hmissed havail => ?_⟩
  · obtain ⟨t, ht, htsid, hhealthy, hacts, -⟩ := hd.demote_mem hsid
    obtain ⟨s, hs, rfl⟩ := List.mem_map.mp ht
    exact ⟨hd.demoted_not_recorded (h.view_distinct c) answer hsid, s, hs, htsid, hhealthy, hacts⟩
  · have hmember : p ∈ db.members c.cid :=
      List.mem_filter.mpr ⟨hp, by simpa using h.member c hc p hp hactive⟩
    have hcount : (db.view c).threshold ≤ p.consecutiveFailures := h.count p hp ▸ hmissed
    have hpos : 0 < p.consecutiveFailures :=
      lt_of_lt_of_le (Nat.lt_of_lt_of_le Nat.one_pos (le_max_right _ _)) hcount
    obtain ⟨s, hs, hready⟩ := havail
    obtain ⟨t, ht, hready, hpromoted, hresult⟩ := hd.promotes (h.view_distinct c)
      (List.mem_map_of_mem hmember) hactive ⟨h.down p hp hpos, hcount⟩
      ⟨s.view, List.mem_map_of_mem hs, hready⟩
    obtain ⟨s, hs, rfl⟩ := List.mem_map.mp ht
    refine ⟨s, hs, hready, hpromoted, ?_⟩
    rw [ClusterRecord.decided, hpromoted, List.all_cons, List.all_nil, Bool.and_true,
      show s.view.sid = s.sid from rfl]
    by_cases hok : answer (.promote s.sid) = true
    · rw [if_pos hok, if_pos hok]
      exact hresult
    · rw [if_neg hok, if_neg hok, hactive]

section Sample

def clusterRow : ClusterRecord := ⟨"c", true, 3, some "p"⟩

/-- A cluster with a primary, recorded as the active one, and a standby. -/
def sampleHistory : List Change :=
  [.createCluster "c", .register "p" (some "c"), .register "s" (some "c"), .setIntent "p" .primary,
    .setIntent "s" .standby, .setPolicy "c" true 3, .poll "p" (some [⟨"primary", true⟩]),
    .poll "s" (some [⟨"secondary", true⟩]), .pass fun _ => true]

/-- The primary misses three polls. -/
def sampleOutage : List Change :=
  sampleHistory ++ [.poll "p" none, .poll "p" none, .poll "p" none]

def outageCenter : CenterDb where
  clusters := [clusterRow]
  servers := [⟨"p", some "c", false, none, .primary, false, 3⟩,
    ⟨"s", some "c", true, some [⟨"secondary", true⟩], .standby, false, 0⟩]

theorem run_sampleOutage : Run CenterDb.Step .empty sampleOutage outageCenter :=
  Run.of_foldlM (by decide +kernel)

theorem failover_keeps_primary_outage :
    missedPolls sampleOutage "p" = 3 ∧
      ∃ s ∈ outageCenter.members "c", s.Available ∧
        (evaluate (outageCenter.view clusterRow)).promoted = [s.sid] ∧
        (outageCenter.runFailover fun _ => true).activePrimaryOf "c" = some s.sid := by
  have hkeeps := failover_keeps_primary run_sampleOutage
    (c := clusterRow) (by decide) rfl fun _ => true
  have hmissed : missedPolls sampleOutage "p" = 3 := by decide
  obtain ⟨s, hs, havailable, hpromoted, hrecorded⟩ := hkeeps.2
    ⟨"p", some "c", false, none, .primary, false, 3⟩ (by decide) rfl (by rw [hmissed]; decide)
    ⟨⟨"s", some "c", true, some [⟨"secondary", true⟩], .standby, false, 0⟩, by decide, rfl, rfl, rfl⟩
  exact ⟨hmissed, s, hs, havailable, hpromoted, hrecorded⟩

/-- The primary misses one poll while the standby acts as primary. -/
def sampleTakeover : List Change :=
  sampleHistory ++ [.poll "p" none, .poll "s" (some [⟨"primary", true⟩])]

def takeoverCenter : CenterDb where
  clusters := [clusterRow]
  servers := [⟨"p", some "c", false, none, .primary, false, 1⟩,
    ⟨"s", some "c", true, some [⟨"primary", true⟩], .standby, false, 0⟩]

/-- The row of the primary is deleted. -/
def orphanedCenter : CenterDb where
  clusters := [clusterRow]
  servers := [⟨"s", some "c", true, some [⟨"primary", true⟩], .standby, false, 0⟩]

/-- The only healthy server that acts as primary is demoted and none is promoted, both while the
recorded primary has missed less polls than it may and after it was deleted. -/
theorem only_primary_demoted :
    (Run CenterDb.Step .empty sampleTakeover takeoverCenter ∧
      (takeoverCenter.servers.filter fun s => s.lastOk && actsPrimary s.lastHealth).map (·.sid) =
        ["s"] ∧
      (evaluate (takeoverCenter.view clusterRow)).actions = [.demote "s"]) ∧
    Run CenterDb.Step .empty (sampleTakeover ++ [.delete "p"]) orphanedCenter ∧
      (∀ s ∈ orphanedCenter.servers, clusterRow.activePrimary ≠ some s.sid) ∧
      (∃ s ∈ orphanedCenter.members "c", s.Available) ∧
      (evaluate (orphanedCenter.view clusterRow)).promoted = [] :=
  ⟨⟨Run.of_foldlM (by decide +kernel), by decide, by decide⟩,
    Run.of_foldlM (by decide +kernel), by decide,
    ⟨⟨"s", some "c", true, some [⟨"primary", true⟩], .standby, false, 0⟩, by decide, rfl, rfl, rfl⟩,
    by decide⟩

end Sample

end Magnetite.Center
