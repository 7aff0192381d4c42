import Magnetite.Lib.System
import Mathlib.Algebra.Order.Ring.Int
import Mathlib.Logic.Function.Basic

/-!
# The notification dispatcher

Any number of dispatchers share one store. Each lists the alerts that have not been delivered and
the targets, and takes the alerts one by one: it claims the alert, delivers it to the targets that
match, and marks it or releases the claim. Every call to the store and every delivery is a step of
its own; a call that fails may have been applied or not, and a dispatcher may stop anywhere.
-/
namespace Magnetite.Notify

open Magnetite.Lib

/-! ## Alerts and targets -/

inductive Severity where
  | info
  | warning
  | critical
deriving DecidableEq

def rank : Severity → ℕ
  | .critical => 3
  | .warning => 2
  | .info => 1

variable {ι δ κ : Type}

/-- An alert as it is stored. The mark is missing on alerts from before there were deliveries. -/
structure Alert (κ : Type) where
  domain : κ
  severity : Severity
  isOpen : Bool
  suppressed : Bool
  notified : Option Bool
  notifyClaimedAt : Option ℤ

structure NotificationTarget (κ : Type) where
  name : String
  minSeverity : Option Severity
  domains : List κ
  enabled : Bool

def NotificationTarget.matches [DecidableEq κ] (target : NotificationTarget κ)
    (alert : Alert κ) : Bool :=
  target.enabled &&
    (match target.minSeverity with
      | some floor => !decide (rank alert.severity < rank floor)
      | none => true) &&
    (target.domains.isEmpty || target.domains.contains alert.domain)

/-! ## The store -/

section Store

variable [DecidableEq ι]

def notifyLeaseSecs : ℤ := 300

def Alert.undelivered (alert : Alert κ) : Bool :=
  alert.notified == some false && alert.isOpen && !alert.suppressed

/-- Whether a claim made at a time finds the alert. -/
def Alert.claimable (alert : Alert κ) (now : ℤ) : Bool :=
  alert.notified == some false &&
    (match alert.notifyClaimedAt with
      | none => true
      | some claimed => decide (claimed < now - notifyLeaseSecs))

/-- Changes an alert that is there and that meets a condition; also whether there was one. -/
def updateWhere (alerts : ι → Option (Alert κ)) (id : ι) (cond : Alert κ → Bool)
    (change : Alert κ → Alert κ) : (ι → Option (Alert κ)) × Bool :=
  match (alerts id).filter cond with
  | some alert => (Function.update alerts id (some (change alert)), true)
  | none => (alerts, false)

def claimAlertForNotify (alerts : ι → Option (Alert κ)) (id : ι) (now : ℤ) :
    (ι → Option (Alert κ)) × Bool :=
  updateWhere alerts id (·.claimable now) fun alert => { alert with notifyClaimedAt := some now }

def markAlertNotified (alerts : ι → Option (Alert κ)) (id : ι) : ι → Option (Alert κ) :=
  (updateWhere alerts id (fun _ => true) fun alert => { alert with notified := some true }).1

def revertAlertNotified (alerts : ι → Option (Alert κ)) (id : ι) : ι → Option (Alert κ) :=
  (updateWhere alerts id (·.isOpen) fun alert => { alert with notifyClaimedAt := none }).1

theorem updateWhere_of_ne (alerts : ι → Option (Alert κ)) {id other : ι} (h : other ≠ id)
    (cond : Alert κ → Bool) (change : Alert κ → Alert κ) :
    (updateWhere alerts id cond change).1 other = alerts other := by
  rw [updateWhere]
  split
  · exact Function.update_of_ne h _ _
  · rfl

/-- What is stored afterwards was there, or is the changed alert. -/
theorem updateWhere_self (alerts : ι → Option (Alert κ)) (id : ι) (cond : Alert κ → Bool)
    (change : Alert κ → Alert κ) {alert : Alert κ}
    (h : (updateWhere alerts id cond change).1 id = some alert) :
    alerts id = some alert ∨ ∃ old, alerts id = some old ∧ cond old ∧ alert = change old := by
  rw [updateWhere] at h
  split at h
  · next old hold =>
    obtain ⟨hid, hcond⟩ := Option.filter_eq_some_iff.mp hold
    dsimp only at h
    rw [Function.update_self] at h
    exact .inr ⟨old, hid, hcond, (Option.some.inj h).symm⟩
  · exact .inl h

theorem updateWhere_snd (alerts : ι → Option (Alert κ)) (id : ι) (cond : Alert κ → Bool)
    (change : Alert κ → Alert κ) (h : (updateWhere alerts id cond change).2 = true) :
    ∃ old, alerts id = some old ∧ cond old ∧
      (updateWhere alerts id cond change).1 id = some (change old) := by
  rw [updateWhere] at h ⊢
  split at h
  · next old hold =>
    obtain ⟨hid, hcond⟩ := Option.filter_eq_some_iff.mp hold
    exact ⟨old, hid, hcond, by dsimp only; rw [Function.update_self]⟩
  · cases h

theorem updateWhere_of_cond {alerts : ι → Option (Alert κ)} {id : ι} {cond : Alert κ → Bool}
    {alert : Alert κ} (h : alerts id = some alert) (hcond : cond alert)
    (change : Alert κ → Alert κ) : (updateWhere alerts id cond change).2 = true := by
  rw [updateWhere, h, Option.filter_some, if_pos hcond]

/-- A change that keeps the mark. -/
theorem notified_updateWhere (alerts : ι → Option (Alert κ)) (id : ι) (cond : Alert κ → Bool)
    {change : Alert κ → Alert κ} (h : ∀ alert, (change alert).notified = alert.notified)
    (other : ι) : ((updateWhere alerts id cond change).1 other).map Alert.notified =
      (alerts other).map Alert.notified := by
  rw [updateWhere]
  split
  · next old hold =>
    by_cases hid : other = id
    · subst hid
      dsimp only
      rw [Function.update_self, (Option.filter_eq_some_iff.mp hold).1, Option.map_some,
        Option.map_some, h]
    · exact congrArg _ (Function.update_of_ne hid _ _)
  · rfl

end Store

/-! ## Dispatchers -/

section Phases

/-- Where a dispatcher is in a pass. A delivery keeps the targets that are still to come and those
that have accepted the alert. -/
inductive Phase (ι κ : Type) where
  | idle
  | listed (alerts : List (ι × Alert κ))
  | passing (alerts : List (ι × Alert κ)) (targets : List (NotificationTarget κ))
  | claiming (alert : ι × Alert κ) (now : ℤ) (alerts : List (ι × Alert κ))
      (targets : List (NotificationTarget κ))
  | delivering (alert : ι × Alert κ) (now : ℤ) (alerts : List (ι × Alert κ))
      (targets pending accepted : List (NotificationTarget κ)) (allOk : Bool)

/-- The alert that is being delivered, and the time of its claim. -/
def Phase.holds : Phase ι κ → Option (ι × ℤ)
  | .delivering alert now _ _ _ _ _ => some (alert.1, now)
  | _ => none

/-- The time from which a delivery counts: the one that the claim carries. -/
def Phase.since : Phase ι κ → Option ℤ
  | .claiming _ now _ _ => some now
  | .delivering _ now _ _ _ _ _ => some now
  | _ => none

structure World (ι δ κ : Type) where
  alerts : ι → Option (Alert κ)
  targets : List (NotificationTarget κ)
  clock : ℤ
  phase : δ → Phase ι κ

/-- The list holds the undelivered alerts, as they are. -/
def Lists (alerts : ι → Option (Alert κ)) (listed : List (ι × Alert κ)) : Prop :=
  ∀ id alert, (id, alert) ∈ listed ↔ alerts id = some alert ∧ alert.undelivered

/-- Nobody is at work, and only alerts with a mark have been claimed. -/
structure Start (s : World ι δ κ) : Prop where
  idle : ∀ d, s.phase d = .idle
  marked : ∀ id alert, s.alerts id = some alert → alert.notifyClaimedAt ≠ none →
    alert.notified ≠ none

def World.move [DecidableEq δ] (s : World ι δ κ) (d : δ) (p : Phase ι κ) : World ι δ κ :=
  { s with phase := Function.update s.phase d p }

variable {s : World ι δ κ} {d : δ} {p : Phase ι κ} [DecidableEq δ]

@[simp] theorem World.move_phase_self : (s.move d p).phase d = p := Function.update_self ..

theorem World.move_phase_ne {d' : δ} (h : d' ≠ d) : (s.move d p).phase d' = s.phase d' :=
  Function.update_of_ne h ..

end Phases

/-! ## Leases -/

section Leases

variable [DecidableEq κ]

/-- Without a failure so far, every target that matches is still to come or has accepted. -/
def Phase.Accepts : Phase ι κ → Prop
  | .delivering alert _ _ targets pending accepted true =>
    ∀ target ∈ targets, target.matches alert.2 → target ∈ pending ∨ target ∈ accepted
  | _ => True

/-- A delivery has a live claim of its own on an alert that has not been marked. -/
structure Leased (s : World ι δ κ) : Prop where
  held : ∀ d id now, (s.phase d).holds = some (id, now) →
    ∃ alert, s.alerts id = some alert ∧ alert.notified = some false ∧
      alert.notifyClaimedAt = some now
  live : ∀ d now, (s.phase d).since = some now → now ≤ s.clock ∧ s.clock ≤ now + notifyLeaseSecs
  alone : ∀ d d' id now now', (s.phase d).holds = some (id, now) →
    (s.phase d').holds = some (id, now') → d = d'
  accepts : ∀ d, (s.phase d).Accepts
  marked : ∀ id alert, s.alerts id = some alert → alert.notifyClaimedAt ≠ none →
    alert.notified ≠ none

variable {s : World ι δ κ} {d : δ} {p : Phase ι κ} {id : ι} {now : ℤ}

theorem Start.leased (h : Start s) : Leased s where
  held d id now hold := by simp [h.idle d, Phase.holds] at hold
  live d now hsince := by simp [h.idle d, Phase.since] at hsince
  alone d _ _ _ _ hold := by simp [h.idle d, Phase.holds] at hold
  accepts d := by simp [h.idle d, Phase.Accepts]
  marked := h.marked

/-- No dispatcher delivers the alert. -/
def World.Free (s : World ι δ κ) (id : ι) : Prop := ∀ d now, (s.phase d).holds ≠ some (id, now)

/-- An alert that nobody delivers changes. -/
theorem Leased.change (h : Leased s) (hfree : s.Free id) {alerts : ι → Option (Alert κ)}
    (hne : ∀ other, other ≠ id → alerts other = s.alerts other)
    (hmarked : ∀ alert, alerts id = some alert → alert.notifyClaimedAt ≠ none →
      alert.notified ≠ none) : Leased { s with alerts := alerts } where
  held d other now hx := by
    have hother : other ≠ id := fun heq => hfree d now (heq ▸ hx)
    dsimp only at hx ⊢
    rw [hne other hother]
    exact h.held d other now hx
  live := h.live
  alone := h.alone
  accepts := h.accepts
  marked other alert hx := by
    by_cases hother : other = id
    · subst hother
      exact hmarked alert hx
    · dsimp only at hx
      rw [hne other hother] at hx
      exact h.marked other alert hx

/-- A claim that succeeds finds an alert that nobody delivers. -/
theorem Leased.free_of_claimable (h : Leased s) (hnow : now ≤ s.clock) {alert : Alert κ}
    (halert : s.alerts id = some alert) (hclaim : alert.claimable now) : s.Free id := by
  intro d claimed hx
  obtain ⟨alert', halert', -, hclaimed⟩ := h.held d id claimed hx
  obtain rfl := Option.some.inj (halert.symm.trans halert')
  have hlive := h.live d claimed (by
    cases hphase : s.phase d <;> simp_all [Phase.holds, Phase.since])
  simp only [Alert.claimable, hclaimed, Bool.and_eq_true, decide_eq_true_eq] at hclaim
  omega

/-- A claim changes an alert that nobody delivers, or nothing. -/
theorem Leased.claim [DecidableEq ι] (h : Leased s) (id : ι) (hnow : now ≤ s.clock) :
    Leased { s with alerts := (claimAlertForNotify s.alerts id now).1 } ∧
      ((claimAlertForNotify s.alerts id now).2 → s.Free id) := by
  by_cases hwon : (claimAlertForNotify s.alerts id now).2 = true
  · obtain ⟨old, hold, hcond, hnew⟩ := updateWhere_snd _ _ _ _ hwon
    have hfree := h.free_of_claimable hnow hold hcond
    refine ⟨h.change hfree (fun other hne => updateWhere_of_ne _ hne _ _) ?_, fun _ => hfree⟩
    intro alert halert _
    rw [claimAlertForNotify, hnew] at halert
    obtain rfl := Option.some.inj halert
    simp only [Alert.claimable, Bool.and_eq_true, beq_iff_eq] at hcond
    simp [hcond.1]
  · refine ⟨?_, fun h => absurd h hwon⟩
    have hsame : (claimAlertForNotify s.alerts id now).1 = s.alerts := by
      rw [claimAlertForNotify, updateWhere] at hwon ⊢
      split at hwon
      · exact absurd rfl hwon
      · rfl
    rw [hsame]
    exact h

/-- An alert that has been claimed has a mark. -/
theorem Leased.notified_eq (h : Leased s) {alert : Alert κ} (halert : s.alerts id = some alert)
    (hnot : alert.notified ≠ some true)
    (hraised : alert.notifyClaimedAt = none → alert.notified = some false) :
    alert.notified = some false := by
  by_cases hclaimed : alert.notifyClaimedAt = none
  · exact hraised hclaimed
  · have hmarked := h.marked id alert halert hclaimed
    rcases hn : alert.notified with _ | _ | _
    · exact absurd hn hmarked
    · rfl
    · exact absurd hn hnot

variable [DecidableEq δ]

/-- A dispatcher goes on with what it holds, or lets it go. -/
theorem Leased.move (h : Leased s) (hhold : ∀ x, p.holds = some x → (s.phase d).holds = some x)
    (hsince : ∀ now, p.since = some now → (s.phase d).since = some now ∨ now = s.clock)
    (hacc : p.Accepts) : Leased (s.move d p) := by
  have back (d' : δ) (x : ι × ℤ) (hx : ((s.move d p).phase d').holds = some x) :
      (s.phase d').holds = some x := by
    by_cases hd : d' = d
    · subst hd
      exact hhold x (by simpa using hx)
    · rwa [World.move_phase_ne hd] at hx
  constructor
  case held => exact fun d' id now hx => h.held d' id now (back d' _ hx)
  case live =>
    intro d' now hx
    by_cases hd : d' = d
    · subst hd
      rcases hsince now (by simpa using hx) with hx | rfl
      · exact h.live d' now hx
      · exact ⟨le_refl s.clock, by simp [World.move, notifyLeaseSecs]⟩
    · rw [World.move_phase_ne hd] at hx
      exact h.live d' now hx
  case alone =>
    exact fun d d' id now now' hx hx' => h.alone d d' id now now' (back _ _ hx) (back _ _ hx')
  case accepts =>
    intro d'
    by_cases hd : d' = d
    · subst hd
      simpa using hacc
    · rw [World.move_phase_ne hd]
      exact h.accepts d'
  case marked => exact h.marked

theorem Leased.letGo (h : Leased s) (hhold : p.holds = none) (hsince : p.since = none)
    (hacc : p.Accepts) : Leased (s.move d p) :=
  h.move (by simp [hhold]) (by simp [hsince]) hacc

/-- Nobody has the alert when the one who had it has let it go. -/
theorem Leased.free_of_letGo (h : Leased s) (hold : (s.phase d).holds = some (id, now))
    (hp : p.holds = none) : (s.move d p).Free id := by
  intro d' now' hx
  by_cases hd : d' = d
  · subst hd
    simp [hp] at hx
  · rw [World.move_phase_ne hd] at hx
    exact hd (h.alone d' d id now' now hx hold)

theorem Leased.begin (h : Leased s) (hfree : s.Free id) {alert : Alert κ}
    (halert : s.alerts id = some alert) (hnot : alert.notified = some false)
    (hclaimed : alert.notifyClaimedAt = some now) (hsince : (s.phase d).since = some now)
    (hp : p.holds = some (id, now)) (hp' : p.since = some now) (hacc : p.Accepts) :
    Leased (s.move d p) := by
  have back {d' : δ} {x : ι × ℤ} (hd : d' ≠ d) (hx : ((s.move d p).phase d').holds = some x) :
      (s.phase d').holds = some x := by
    rwa [World.move_phase_ne hd] at hx
  constructor
  case held =>
    intro d' id' now' hx
    by_cases hd : d' = d
    · subst hd
      rw [World.move_phase_self, hp] at hx
      cases hx
      exact ⟨alert, halert, hnot, hclaimed⟩
    · exact h.held d' id' now' (back hd hx)
  case live =>
    intro d' now' hx
    by_cases hd : d' = d
    · subst hd
      rw [World.move_phase_self, hp'] at hx
      cases hx
      exact h.live d' now hsince
    · rw [World.move_phase_ne hd] at hx
      exact h.live d' now' hx
  case alone =>
    -- Whoever held the alert before would be a second one; nobody did.
    have only {d' : δ} {id' : ι} {now' : ℤ} (hx : ((s.move d p).phase d').holds = some (id', now'))
        (hid : id' = id) : d' = d := by
      by_contra hd
      exact hfree d' now' (hid ▸ back hd hx)
    intro d₁ d₂ id' now₁ now₂ hx hx'
    by_cases hid : id' = id
    · rw [only hx hid, only hx' hid]
    · have other {d' : δ} {now' : ℤ} (hx : ((s.move d p).phase d').holds = some (id', now')) :
          (s.phase d').holds = some (id', now') := by
        refine back (fun hd => ?_) hx
        subst hd
        rw [World.move_phase_self, hp] at hx
        cases hx
        exact hid rfl
      exact h.alone d₁ d₂ id' now₁ now₂ (other hx) (other hx')
  case accepts =>
    intro d'
    by_cases hd : d' = d
    · subst hd
      simpa using hacc
    · rw [World.move_phase_ne hd]
      exact h.accepts d'
  case marked => exact h.marked

end Leases

/-! ## Steps -/

section Steps

variable [DecidableEq ι] [DecidableEq δ] [DecidableEq κ]

/-- The steps of dispatchers, and what happens around them. Time passes only as far as every
delivery that has begun takes no longer than the lease. -/
inductive Step : World ι δ κ → Option δ → World ι δ κ → Prop where
  | list {s d listed} : s.phase d = .idle → Lists s.alerts listed →
      Step s (some d) (s.move d (.listed listed))
  | nothing {s d} : s.phase d = .listed [] → Step s (some d) (s.move d .idle)
  | listTargets {s d alert alerts} : s.phase d = .listed (alert :: alerts) →
      Step s (some d) (s.move d (.passing (alert :: alerts) s.targets))
  | stamp {s d alert alerts targets} : s.phase d = .passing (alert :: alerts) targets →
      Step s (some d) (s.move d (.claiming alert s.clock alerts targets))
  | claim {s d alert now alerts targets} : s.phase d = .claiming alert now alerts targets →
      Step s (some d) { s.move d (if (claimAlertForNotify s.alerts alert.1 now).2 then
            .delivering alert now alerts targets (targets.filter (·.matches alert.2)) [] true
          else .passing alerts targets) with
        alerts := (claimAlertForNotify s.alerts alert.1 now).1 }
  | claimFails {s d alert now alerts targets} (applied : Bool) :
      s.phase d = .claiming alert now alerts targets →
      Step s (some d) { s.move d (.passing alerts targets) with
        alerts := if applied then (claimAlertForNotify s.alerts alert.1 now).1 else s.alerts }
  | deliver {s d alert now alerts targets target pending accepted allOk} (ok : Bool) :
      s.phase d = .delivering alert now alerts targets (target :: pending) accepted allOk →
      Step s (some d) (s.move d (.delivering alert now alerts targets pending
        (if ok then target :: accepted else accepted) (allOk && ok)))
  | mark {s d alert now alerts targets accepted} (applied : Bool) :
      s.phase d = .delivering alert now alerts targets [] accepted true →
      Step s (some d) { s.move d (.passing alerts targets) with
        alerts := if applied then markAlertNotified s.alerts alert.1 else s.alerts }
  | revert {s d alert now alerts targets accepted} (applied : Bool) :
      s.phase d = .delivering alert now alerts targets [] accepted false →
      Step s (some d) { s.move d (.passing alerts targets) with
        alerts := if applied then revertAlertNotified s.alerts alert.1 else s.alerts }
  | done {s d targets} : s.phase d = .passing [] targets → Step s (some d) (s.move d .idle)
  | crash {s d} : Step s (some d) (s.move d .idle)
  | raise {s id alert} : s.alerts id = none → alert.notified = some false →
      alert.notifyClaimedAt = none →
      Step s none { s with alerts := Function.update s.alerts id (some alert) }
  | close {s id alert} : s.alerts id = some alert →
      Step s none { s with
        alerts := Function.update s.alerts id (some { alert with isOpen := false }) }
  | setTargets {s} (targets : List (NotificationTarget κ)) :
      Step s none { s with targets := targets }
  | tick {s} (now : ℤ) : s.clock ≤ now →
      (∀ d claimed, (s.phase d).since = some claimed → now ≤ claimed + notifyLeaseSecs) →
      Step s none { s with clock := now }

variable {s t : World ι δ κ} {l : Option δ}

section Kinds

variable {d : δ} {alert : ι × Alert κ} {now : ℤ} {alerts : List (ι × Alert κ)}
  {targets pending accepted : List (NotificationTarget κ)} {allOk : Bool}

theorem Leased.step_claim (h : Leased s) (hphase : s.phase d = .claiming alert now alerts targets) :
    Leased { s.move d (if (claimAlertForNotify s.alerts alert.1 now).2 then
          .delivering alert now alerts targets (targets.filter (·.matches alert.2)) [] true
        else .passing alerts targets) with
      alerts := (claimAlertForNotify s.alerts alert.1 now).1 } := by
  have hsince : (s.phase d).since = some now := by rw [hphase]; rfl
  obtain ⟨hclaim, hfree⟩ := h.claim alert.1 (h.live d now hsince).1
  by_cases hwon : (claimAlertForNotify s.alerts alert.1 now).2 = true
  · obtain ⟨old, -, hcond, hnew⟩ := updateWhere_snd _ _ _ _ hwon
    simp only [Alert.claimable, Bool.and_eq_true, beq_iff_eq] at hcond
    rw [if_pos hwon]
    refine hclaim.begin (hfree hwon) hnew hcond.1 rfl hsince rfl rfl ?_
    intro target ht hmatch
    exact .inl (List.mem_filter.mpr ⟨ht, hmatch⟩)
  · rw [if_neg hwon]
    exact hclaim.letGo rfl rfl trivial

omit [DecidableEq ι] in
theorem Leased.step_deliver (h : Leased s) {target : NotificationTarget κ} (ok : Bool)
    (hphase : s.phase d = .delivering alert now alerts targets (target :: pending) accepted allOk) :
    Leased (s.move d (.delivering alert now alerts targets pending
      (if ok then target :: accepted else accepted) (allOk && ok))) := by
  refine h.move (by rw [hphase]; exact fun _ => id) (by rw [hphase]; exact fun _ => .inl) ?_
  have hacc := h.accepts d
  rw [hphase] at hacc
  cases allOk with
  | false => trivial
  | true =>
    cases ok with
    | false => trivial
    | true =>
      intro t ht hmatch
      rcases hacc t ht hmatch with hin | hin
      · rcases List.mem_cons.mp hin with rfl | hin
        · exact .inr List.mem_cons_self
        · exact .inl hin
      · exact .inr (List.mem_cons_of_mem _ hin)

/-- A delivery ends with a change of the alert: it is marked, or released. -/
theorem Leased.step_end (h : Leased s)
    (hphase : s.phase d = .delivering alert now alerts targets [] accepted allOk)
    (cond : Alert κ → Bool) {change : Alert κ → Alert κ}
    (hchange : ∀ a, (change a).notifyClaimedAt ≠ none → (change a).notified ≠ none)
    (applied : Bool) :
    Leased { s.move d (.passing alerts targets) with
      alerts := if applied then (updateWhere s.alerts alert.1 cond change).1 else s.alerts } := by
  have hgone : Leased (s.move d (.passing alerts targets)) := h.letGo rfl rfl trivial
  cases applied with
  | false => exact hgone
  | true =>
    have hold : (s.phase d).holds = some (alert.1, now) := by rw [hphase]; rfl
    refine hgone.change (h.free_of_letGo hold rfl)
      (fun other hne => updateWhere_of_ne _ hne _ _) fun a ha hclaimed => ?_
    rcases updateWhere_self _ _ _ _ ha with ha | ⟨old, -, -, rfl⟩
    · exact h.marked _ a ha hclaimed
    · exact hchange old hclaimed

omit [DecidableEq δ] in
theorem Leased.step_raise (h : Leased s) {id : ι} {alert : Alert κ} (hnone : s.alerts id = none)
    (hclaimed : alert.notifyClaimedAt = none) :
    Leased { s with alerts := Function.update s.alerts id (some alert) } := by
  have hfree : s.Free id := fun d now hx => by
    obtain ⟨a, ha, -⟩ := h.held d id now hx
    rw [hnone] at ha
    cases ha
  refine h.change hfree (fun other hne => Function.update_of_ne hne _ _) fun a ha hne => ?_
  rw [Function.update_self] at ha
  rw [← Option.some.inj ha, hclaimed] at hne
  exact absurd rfl hne

omit [DecidableEq δ] in
theorem Leased.step_close (h : Leased s) {id : ι} {alert : Alert κ}
    (halert : s.alerts id = some alert) :
    Leased { s with
      alerts := Function.update s.alerts id (some { alert with isOpen := false }) } := by
  refine ⟨fun d id' now hx => ?_, h.live, h.alone, h.accepts, fun id' a ha => ?_⟩
  · obtain ⟨a, ha, hnot, hclaimed⟩ := h.held d id' now hx
    by_cases hid : id' = id
    · subst hid
      obtain rfl := Option.some.inj (halert.symm.trans ha)
      exact ⟨_, Function.update_self .., hnot, hclaimed⟩
    · exact ⟨a, (Function.update_of_ne hid _ _).trans ha, hnot, hclaimed⟩
  · by_cases hid : id' = id
    · subst hid
      dsimp only at ha
      rw [Function.update_self] at ha
      rw [← Option.some.inj ha]
      exact h.marked id' alert halert
    · exact h.marked id' a ((Function.update_of_ne hid _ _).symm.trans ha)

end Kinds

theorem Leased.step (h : Leased s) (hstep : Step s l t) : Leased t := by
  cases hstep with
  | list hphase _ => exact h.letGo rfl rfl trivial
  | nothing hphase => exact h.letGo rfl rfl trivial
  | listTargets hphase => exact h.letGo rfl rfl trivial
  | done hphase => exact h.letGo rfl rfl trivial
  | crash => exact h.letGo rfl rfl trivial
  | stamp hphase =>
    exact h.move (by simp [Phase.holds])
      (fun now hnow => .inr (by simpa [Phase.since] using hnow.symm)) trivial
  | claim hphase => exact h.step_claim hphase
  | @claimFails d alert now alerts targets applied hphase =>
    cases applied with
    | false => exact h.letGo rfl rfl trivial
    | true =>
      have hsince : (s.phase d).since = some now := by rw [hphase]; rfl
      exact (h.claim alert.1 (h.live d now hsince).1).1.letGo rfl rfl trivial
  | deliver ok hphase => exact h.step_deliver ok hphase
  | mark applied hphase => exact h.step_end hphase (fun _ => true) (by simp) applied
  | revert applied hphase => exact h.step_end hphase (·.isOpen) (by simp) applied
  | raise hnone hnot hclaimed => exact h.step_raise hnone hclaimed
  | close halert => exact h.step_close halert
  | setTargets targets => exact ⟨h.held, h.live, h.alone, h.accepts, h.marked⟩
  | tick now hle hlive =>
    exact ⟨h.held, fun d claimed hx => ⟨(h.live d claimed hx).1.trans hle, hlive d claimed hx⟩,
      h.alone, h.accepts, h.marked⟩

/-- An alert is marked in one way: by a dispatcher that has delivered it to all targets. -/
theorem Leased.marks (h : Leased s) (hstep : Step s l t) {id : ι} {alert alert' : Alert κ}
    (hs : s.alerts id = some alert) (hnot : alert.notified ≠ some true)
    (ht : t.alerts id = some alert') (hmarked : alert'.notified = some true) :
    ∃ d snapshot now rest targets accepted,
      s.phase d = .delivering (id, snapshot) now rest targets [] accepted true ∧
        ∀ target ∈ targets, target.matches snapshot → target ∈ accepted := by
  have kept (heq : (t.alerts id).map Alert.notified = (s.alerts id).map Alert.notified) :
      False := by
    rw [hs, ht, Option.map_some, Option.map_some, hmarked] at heq
    exact hnot (Option.some.inj heq).symm
  cases hstep with
  | list => exact (kept rfl).elim
  | nothing => exact (kept rfl).elim
  | listTargets => exact (kept rfl).elim
  | stamp => exact (kept rfl).elim
  | deliver => exact (kept rfl).elim
  | done => exact (kept rfl).elim
  | crash => exact (kept rfl).elim
  | setTargets => exact (kept rfl).elim
  | tick => exact (kept rfl).elim
  | claim => exact (kept (notified_updateWhere _ _ _ (by intro; rfl) id)).elim
  | claimFails applied =>
    cases applied with
    | false => exact (kept rfl).elim
    | true => exact (kept (notified_updateWhere _ _ _ (by intro; rfl) id)).elim
  | revert applied =>
    cases applied with
    | false => exact (kept rfl).elim
    | true => exact (kept (notified_updateWhere _ _ _ (by intro; rfl) id)).elim
  | @raise id' _ hnone =>
    have hid : id ≠ id' := fun heq => by rw [heq, hnone] at hs; cases hs
    exact (kept (congrArg _ (Function.update_of_ne hid _ _))).elim
  | @close id' a ha =>
    refine (kept ?_).elim
    by_cases hid : id = id'
    · subst hid
      dsimp only
      rw [ha, Function.update_self]
      rfl
    · exact congrArg _ (Function.update_of_ne hid _ _)
  | @mark d a now rest targets accepted applied hphase =>
    cases applied with
    | false => exact (kept rfl).elim
    | true =>
      by_cases hid : id = a.1
      · subst hid
        have hacc := h.accepts d
        rw [hphase] at hacc
        exact ⟨d, a.2, now, rest, targets, accepted, hphase, fun target htarget hmatch =>
          (hacc target htarget hmatch).resolve_left List.not_mem_nil⟩
      · exact (kept (congrArg _ (updateWhere_of_ne _ hid _ _))).elim

/-- An alert without a live claim is claimed by the next one that tries. -/
theorem claim_wins {id : ι} {alert snapshot : Alert κ} {d : δ} {rest : List (ι × Alert κ)}
    {targets : List (NotificationTarget κ)} (halert : s.alerts id = some alert)
    (hfalse : alert.notified = some false)
    (hold : ∀ claimed, alert.notifyClaimedAt = some claimed → claimed < s.clock - notifyLeaseSecs)
    (hphase : s.phase d = .claiming (id, snapshot) s.clock rest targets) :
    ∃ t, Step s (some d) t ∧ (t.phase d).holds = some (id, s.clock) := by
  have hclaimable : alert.claimable s.clock := by
    rw [Alert.claimable, hfalse]
    cases hclaimed : alert.notifyClaimedAt with
    | none => rfl
    | some claimed => simpa using hold claimed hclaimed
  have hwon : (claimAlertForNotify s.alerts id s.clock).2 = true :=
    updateWhere_of_cond halert hclaimable _
  refine ⟨_, .claim hphase, ?_⟩
  simp only [hwon, if_true]
  rw [World.move_phase_self]
  rfl

/-- At every moment of every run: an alert is with one dispatcher at most; it is marked only by one
that has delivered it to all the targets that match; what is being delivered is not marked; and an
open alert whose claim has run out is listed, unless it is suppressed, and can be claimed. -/
theorem notifications_leased {start : World ι δ κ} {labels : List (Option δ)} (hstart : Start start)
    (hrun : Run Step start labels s) :
    (∀ d d' id now now', (s.phase d).holds = some (id, now) → (s.phase d').holds = some (id, now') →
      d = d') ∧
    (∀ l t id alert alert', Step s l t → s.alerts id = some alert → alert.notified ≠ some true →
      t.alerts id = some alert' → alert'.notified = some true →
      ∃ d snapshot now rest targets accepted,
        s.phase d = .delivering (id, snapshot) now rest targets [] accepted true ∧
          ∀ target ∈ targets, target.matches snapshot → target ∈ accepted) ∧
    (∀ d id now, (s.phase d).holds = some (id, now) →
      ∃ alert, s.alerts id = some alert ∧ alert.notified = some false) ∧
    ∀ id alert, s.alerts id = some alert → alert.isOpen → alert.notified ≠ some true →
      (alert.notifyClaimedAt = none → alert.notified = some false) →
      (∀ claimed, alert.notifyClaimedAt = some claimed → claimed < s.clock - notifyLeaseSecs) →
      (∀ listed, Lists s.alerts listed → (id, alert) ∈ listed ∨ alert.suppressed) ∧
      ∀ d snapshot rest targets, s.phase d = .claiming (id, snapshot) s.clock rest targets →
        ∃ t, Step s (some d) t ∧ (t.phase d).holds = some (id, s.clock) := by
  have h : Leased s := hrun.invariant Leased (fun _ _ _ h hstep => h.step hstep) hstart.leased
  refine ⟨h.alone, fun l t id alert alert' hstep hs hnot ht hmarked =>
    h.marks hstep hs hnot ht hmarked, fun d id now hx => ?_,
    fun id alert halert hopen hnot hraised hold => ?_⟩
  · obtain ⟨alert, halert, hnot, -⟩ := h.held d id now hx
    exact ⟨alert, halert, hnot⟩
  · have hfalse := h.notified_eq halert hnot hraised
    refine ⟨fun listed hlists => ?_, fun d snapshot rest targets hphase =>
      claim_wins halert hfalse hold hphase⟩
    cases hsup : alert.suppressed with
    | true => exact .inr rfl
    | false =>
      exact .inl ((hlists id alert).mpr ⟨halert, by simp [Alert.undelivered, hfalse, hopen, hsup]⟩)

end Steps

/-! ## A sample -/

namespace Sample

/-- An alert whose dispatcher stopped long ago. -/
def alert : Alert Unit := ⟨(), .warning, true, false, some false, some 0⟩

def target : NotificationTarget Unit := ⟨"mail", some .warning, [], true⟩

def world (phase : Bool → Phase Unit Unit) : World Unit Bool Unit :=
  ⟨fun _ => some alert, [target], 1000, phase⟩

/-- The dispatcher has listed the alert and the target and read the clock. -/
def claiming : Phase Unit Unit := .claiming ((), alert) 1000 [] [target]

theorem run_claiming (phase : Bool → Phase Unit Unit) (d : Bool) (h : phase d = .idle) :
    Run Step (world phase) [some d, some d, some d]
      (world (Function.update phase d claiming)) := by
  have lists : Lists (world phase).alerts [((), alert)] := by
    intro id a
    simp only [List.mem_singleton, Prod.mk.injEq, true_and, world, Option.some.injEq]
    exact ⟨fun h => ⟨h.symm, h ▸ rfl⟩, fun h => h.1.symm⟩
  have listTargets := Step.listTargets (s := world (Function.update phase d (.listed [((), alert)])))
    (Function.update_self ..)
  have stamp := Step.stamp (s := world (Function.update phase d (.passing [((), alert)] [target])))
    (Function.update_self ..)
  simp only [World.move, world, Function.update_idem] at listTargets stamp
  exact .cons (.list h lists) (.cons listTargets (.cons stamp (.nil _)))

/-- Of two dispatchers the one that comes first gets the alert. -/
theorem notifications_leased_again : target.matches alert = true ∧
    ∀ d, ∃ t, Step (world fun _ => claiming) (some d) t ∧ (t.phase d).holds = some ((), 1000) := by
  have hboth : Function.update (Function.update (fun _ => .idle) false claiming) true claiming =
      fun _ => claiming := by
    funext d
    cases d <;> rfl
  have hrun := (run_claiming (fun _ => .idle) false rfl).append (run_claiming _ true rfl)
  rw [hboth] at hrun
  refine ⟨by decide, fun d => ?_⟩
  exact ((notifications_leased ⟨fun _ => rfl, fun _ _ h _ => (Option.some.inj h) ▸ by simp [alert]⟩
    hrun).2.2.2 () alert rfl rfl (by decide) (by simp [alert])
    (by simp [alert, world, notifyLeaseSecs])).2 d alert [] [target] rfl

end Sample

end Magnetite.Notify
