import Magnetite.Center.Election
import Magnetite.Lib.Lease

/-!
# One failover pass at a time

A center that has its flag set or is inside a pass acts on a lease that it was told of. As long as
that lease has not ended, it is the one in the store, and the store gives it to nobody else.
-/
namespace Magnetite.Center

open Magnetite.Lib

/-- The center may send commands to the servers, now or at its next tick. -/
def Node.Active (c : Node) : Prop := c.isLeader = true ∨ c.inPass = true

/-- An answer by which the center becomes or stays leader. -/
def Node.Granted (c : Node) (info : LeaderInfo) : Prop :=
  c.stage = .reply info ∧ info.isSelf = true

/-- What a step must meet. The clock does not pass the end of the lease that a center was told of
while it is active, and an answer that makes it leader arrives before that end. A center has a name.
A call that has failed for its center does not shorten its lease when it takes effect after all. A
center that releases the lease is not active and has no grant on its way. -/
def System.Guarded (s : System) : Event → Prop
  | .tick now => ∀ p, (s.centers p).Active → now < (s.centers p).leaseEnd
  | .renew p => p ≠ ""
  | .answer p => ∀ info, (s.centers p).Granted info → s.clock < info.expiresAt
  | .late p i => ∀ now expires, (s.centers p).late[i]? = some (now, expires) →
      s.lease.holder = p → s.lease.expiresAt ≤ expires
  | .release p => ¬ (s.centers p).Active ∧ ∀ info, ¬ (s.centers p).Granted info
  | _ => True

def LeaseRecord.lease (rec : LeaseRecord) : Lease String := ⟨rec.holder, rec.expiresAt⟩

section Invariant

variable {ttl : String → Nat} {lease : LeaseRecord} {clock : Nat} {p q : String} {c : Node}

/-- What holds of each center. -/
structure Sound (ttl : String → Nat) (lease : LeaseRecord) (clock : Nat) (p : String) (c : Node) :
    Prop where
  running : c.Active → clock < c.leaseEnd
  covered : c.Active → lease.lease.Covers clock p c.leaseEnd
  pending : ∀ info, c.Granted info → lease.lease.Covers clock p info.expiresAt
  begun : ∀ now, c.stage = .began now → now ≤ clock
  calls : ∀ call ∈ c.stage.abandoned ++ c.late, call.1 ≤ clock ∧ call.2 ≤ clock + max (ttl p) 1
  /-- The call under way is the one that ends last. -/
  last : ∀ now expires, c.stage = .update now expires →
    (lease.holder = p → lease.expiresAt ≤ expires) ∧ ∀ call ∈ c.late, call.2 ≤ expires
  named : p = "" → c.stage = .idle ∧ c.late = []

theorem Sound.tick (h : Sound ttl lease clock p c) {now : Nat} (le : clock ≤ now)
    (guard : c.Active → now < c.leaseEnd) : Sound ttl lease now p c where
  running := guard
  covered hactive := (h.covered hactive).tick le
  pending info hinfo := (h.pending info hinfo).tick le
  begun now' hstage := Nat.le_trans (h.begun now' hstage) le
  calls call hcall := by
    have := h.calls call hcall
    omega
  last := h.last
  named := h.named

/-- A claim by any center keeps what holds of each: of the claimant itself if the claim extends its
lease and does not end after the call it has under way. -/
theorem Sound.claim (h : Sound ttl lease clock p c) {now expires : Nat} (hnow : now ≤ clock)
    (free : lease.claimable q now) (grows : lease.holder = q → lease.expiresAt ≤ expires)
    (own : q = p → ∀ now' expires', c.stage = .update now' expires' → expires ≤ expires') :
    Sound ttl (lease.claim q expires) clock p c := by
  have free : lease.holder = q ∨ lease.expiresAt ≤ now := by
    simpa [LeaseRecord.claimable] using free
  refine { h with
    covered := fun hactive => (h.covered hactive).claim hnow free grows
    pending := fun info hinfo => (h.pending info hinfo).claim hnow free grows
    last := ?_ }
  intro now' expires' hstage
  exact ⟨fun hq => own hq now' expires' hstage, (h.last now' expires' hstage).2⟩

/-- A release takes the lease from no other center, and the one that releases it does not use it. -/
theorem Sound.release (h : Sound ttl lease clock p c)
    (quiet : q = p → ¬ c.Active ∧ ∀ info, ¬ c.Granted info) :
    Sound ttl (lease.releaseLeadership q) clock p c := by
  by_cases hq : lease.holder = q
  · -- only the center that releases the lease could have a grant of it
    have released : lease.releaseLeadership q = { lease with holder := "", expiresAt := 0 } := by
      simp [LeaseRecord.releaseLeadership, hq]
    have ended {fin : Nat} (hcov : lease.lease.Covers clock p fin) (use : q = p → False) :
        (LeaseRecord.lease (lease.releaseLeadership q)).Covers clock p fin :=
      fun running => (use (hq.symm.trans (hcov running).1)).elim
    refine { h with
      covered := fun hactive => ended (h.covered hactive) fun hqp => (quiet hqp).1 hactive
      pending := fun info hinfo => ended (h.pending info hinfo) fun hqp => (quiet hqp).2 info hinfo
      last := fun now expires hstage => ⟨?_, (h.last now expires hstage).2⟩ }
    intro _
    simp [released]
  · simpa [LeaseRecord.releaseLeadership, hq] using h

/-- What holds of the system: the lease runs for at most the time its holder asks for. -/
structure System.Sound (ttl : String → Nat) (s : System) : Prop where
  centers : ∀ p, Center.Sound ttl s.lease s.clock p (s.centers p)
  lease : s.lease.expiresAt ≤ s.clock + max (ttl s.lease.holder) 1

variable {s t : System}

theorem System.Sound.setCenter (h : s.Sound ttl) (hc : Center.Sound ttl s.lease s.clock p c) :
    (s.setCenter p c).Sound ttl := by
  refine ⟨fun q => ?_, h.lease⟩
  by_cases hq : q = p
  · subst hq
    simpa [System.setCenter] using hc
  · simpa [System.setCenter, Function.update_of_ne hq] using h.centers q

@[simp]
theorem System.claim_centers (s : System) (p : String) (now expires : Nat) :
    (s.claim p now expires).centers = s.centers := by
  unfold System.claim
  split_ifs <;> rfl

theorem System.Sound.claim (h : s.Sound ttl) {now expires : Nat} (hnow : now ≤ s.clock)
    (hexpires : expires ≤ s.clock + max (ttl p) 1)
    (grows : s.lease.holder = p → s.lease.expiresAt ≤ expires)
    (own : ∀ now' expires', (s.centers p).stage = .update now' expires' → expires ≤ expires') :
    (s.claim p now expires).Sound ttl := by
  unfold System.claim
  split_ifs with free
  · exact ⟨fun q => (h.centers q).claim hnow free grows fun hpq => hpq ▸ own, hexpires⟩
  · exact h

/-- The election task is at a stage without a call that can take effect. -/
theorem Sound.setStage (h : Sound ttl lease clock p c) (hname : p ≠ "") {stage : Stage}
    (hcalls : stage.abandoned = []) (hbegun : ∀ now, stage = .began now → now ≤ clock)
    (hpending : ∀ info, stage = .reply info → info.isSelf = true →
      lease.lease.Covers clock p info.expiresAt) :
    Sound ttl lease clock p { c with stage } where
  running := h.running
  covered := h.covered
  pending info hinfo := hpending info hinfo.1 hinfo.2
  begun := hbegun
  calls call hcall := by
    apply h.calls
    simp only [hcalls, List.nil_append] at hcall
    exact List.mem_append_right _ hcall
  last now expires hstage := by
    obtain rfl : stage = .update now expires := hstage
    simp [Stage.abandoned] at hcalls
  named hp := absurd hp hname

/-- A task that stops leaves a call that may take effect later, and nothing else. -/
theorem Sound.abandon (h : Sound ttl lease clock p c) (c' : Node)
    (hactive : c'.Active → c.Active ∧ c'.leaseEnd = c.leaseEnd) (hstage : c'.stage = .idle)
    (hlate : c'.late = c.late ++ c.stage.abandoned) : Sound ttl lease clock p c' where
  running ha := (hactive ha).2 ▸ h.running (hactive ha).1
  covered ha := (hactive ha).2 ▸ h.covered (hactive ha).1
  pending info hinfo := by simp [Node.Granted, hstage] at hinfo
  begun now hnow := by simp [hstage] at hnow
  calls call hcall := by
    apply h.calls
    simpa [hstage, hlate, Stage.abandoned, or_comm] using hcall
  last now expires hupdate := by simp [hstage] at hupdate
  named hp := by
    obtain ⟨hidle, hnone⟩ := h.named hp
    exact ⟨hstage, by simp [hlate, hnone, hidle, Stage.abandoned]⟩

theorem Sound.ne_empty (h : Sound ttl lease clock p c) (hstage : c.stage ≠ .idle) : p ≠ "" :=
  fun hp => hstage (h.named hp).1

/-- The answer to a call: the center that is told it is the leader is told so in time. -/
theorem Sound.answer (h : Sound ttl lease clock p c) {info : LeaderInfo}
    (hstage : c.stage = .reply info) (intime : ∀ info, c.Granted info → clock < info.expiresAt) :
    Sound ttl lease clock p { c with
      stage := .idle
      isLeader := info.isSelf
      leaseEnd := if info.isSelf then info.expiresAt else c.leaseEnd } := by
  have idle : Sound ttl lease clock p { c with stage := .idle } :=
    h.setStage (h.ne_empty (by simp [hstage])) rfl (by simp) (by simp)
  cases hself : info.isSelf with
  | true =>
    exact { idle with
      running := fun _ => intime info ⟨hstage, hself⟩
      covered := fun _ => h.pending info ⟨hstage, hself⟩ }
  | false =>
    have passing (ha : Node.Active { c with stage := .idle, isLeader := false }) : c.Active :=
      .inr (by simpa [Node.Active] using ha)
    exact { idle with
      running := fun ha => h.running (passing ha)
      covered := fun ha => h.covered (passing ha) }

/-- The call takes effect: the lease is claimed, or found taken. -/
theorem System.Sound.apply (h : s.Sound ttl) {now expires : Nat}
    (hstage : (s.centers p).stage = .update now expires) (ht : s.step ttl (.apply p) = some t) :
    t.Sound ttl := by
  have hp := h.centers p
  have hcall := hp.calls (now, expires) (by simp [hstage, Stage.abandoned])
  have claimed : (s.claim p now expires).Sound ttl := by
    refine h.claim hcall.1 hcall.2 (hp.last now expires hstage).1 fun now' expires' hstage' => ?_
    obtain ⟨-, rfl⟩ : now = now' ∧ expires = expires' := by simpa [hstage] using hstage'
    exact Nat.le_refl _
  have hname : p ≠ "" := hp.ne_empty (by simp [hstage])
  simp only [System.step, hstage, Option.some.injEq] at ht
  subst ht
  apply claimed.setCenter
  have hc := claimed.centers p
  rw [System.claim_centers] at hc
  split_ifs with free
  · refine hc.setStage hname rfl (by simp) fun info hinfo _ => ?_
    obtain rfl : _ = info := by simpa using hinfo
    simp only [System.claim, free, if_true]
    exact .granted expires
  · exact hc.setStage hname rfl (by simp) (by simp)

/-- The call is sent: it ends later than the lease that the center may have, and than all its calls
from before. -/
theorem System.Sound.send (h : s.Sound ttl) {now : Nat}
    (hstage : (s.centers p).stage = .began now) :
    (s.setCenter p { s.centers p with
      stage := .update now (s.clock + max (ttl p) 1) }).Sound ttl := by
  have hp := h.centers p
  apply h.setCenter
  refine { hp with
    pending := fun info hinfo => by simp [Node.Granted] at hinfo
    begun := fun now' hnow' => by simp at hnow'
    calls := ?_
    last := ?_
    named := fun hname => absurd hname (hp.ne_empty (by simp [hstage])) }
  · intro call hcall
    rcases List.mem_append.mp hcall with hnew | hold
    · obtain rfl : call = (now, s.clock + max (ttl p) 1) := by simpa [Stage.abandoned] using hnew
      exact ⟨hp.begun now hstage, Nat.le_refl _⟩
    · exact hp.calls call (List.mem_append_right _ hold)
  · intro now' expires' hupdate
    obtain ⟨-, rfl⟩ : now = now' ∧ s.clock + max (ttl p) 1 = expires' := by simpa using hupdate
    refine ⟨fun hholder => hholder ▸ h.lease, fun call hcall => ?_⟩
    exact (hp.calls call (List.mem_append_right _ hcall)).2

theorem System.Sound.late (h : s.Sound ttl) {i now expires : Nat}
    (hi : (s.centers p).late[i]? = some (now, expires))
    (grows : s.lease.holder = p → s.lease.expiresAt ≤ expires) :
    ((s.claim p now expires).setCenter p { s.centers p with
      late := (s.centers p).late.eraseIdx i }).Sound ttl := by
  have hp := h.centers p
  have hmem : (now, expires) ∈ (s.centers p).late := List.mem_of_getElem? hi
  have hcall := hp.calls (now, expires) (List.mem_append_right _ hmem)
  have claimed : (s.claim p now expires).Sound ttl :=
    h.claim hcall.1 hcall.2 grows fun now' expires' hstage =>
      (hp.last now' expires' hstage).2 (now, expires) hmem
  have hc := claimed.centers p
  rw [System.claim_centers] at hc
  apply claimed.setCenter
  refine { hc with
    calls := fun call hmem' => hc.calls call ?_
    last := fun now' expires' hstage => ⟨(hc.last now' expires' hstage).1, fun call hmem' => ?_⟩
    named := fun hname => by simp [(hc.named hname).2] at hmem }
  · exact List.mem_append.mpr ((List.mem_append.mp hmem').imp_right List.mem_of_mem_eraseIdx)
  · exact (hc.last now' expires' hstage).2 call (List.mem_of_mem_eraseIdx hmem')

theorem System.Sound.step {event : Event} (h : s.Sound ttl) (guard : s.Guarded event)
    (ht : s.step ttl event = some t) : t.Sound ttl := by
  cases event with
  | tick now =>
    simp only [System.step, Option.ite_none_right_eq_some, Option.some.injEq] at ht
    obtain ⟨le, rfl⟩ := ht
    have := h.lease
    exact ⟨fun p => (h.centers p).tick le (guard p), by dsimp only; omega⟩
  | renew p =>
    cases hstage : (s.centers p).stage <;> simp only [System.step, hstage, reduceCtorEq] at ht
    obtain rfl := Option.some.inj ht
    exact h.setCenter ((h.centers p).setStage guard rfl (by simp) (by simp))
  | send p =>
    cases hstage : (s.centers p).stage <;> simp only [System.step, hstage, reduceCtorEq] at ht
    obtain rfl := Option.some.inj ht
    exact h.send hstage
  | apply p =>
    cases hstage : (s.centers p).stage with
    | update now expires => exact h.apply hstage ht
    | _ => simp [System.step, hstage] at ht
  | select p =>
    cases hstage : (s.centers p).stage <;> simp only [System.step, hstage, reduceCtorEq] at ht
    obtain rfl := Option.some.inj ht
    have hp := h.centers p
    refine h.setCenter (hp.setStage (hp.ne_empty (by simp [hstage])) rfl (by simp) ?_)
    intro info hinfo hself _
    obtain rfl : s.lease.currentLeader p = info := by simpa using hinfo
    simp only [LeaseRecord.currentLeader, Bool.and_eq_true, beq_iff_eq] at hself
    exact ⟨hself.1, Nat.le_refl _⟩
  | answer p =>
    cases hstage : (s.centers p).stage <;> simp only [System.step, hstage, reduceCtorEq] at ht
    obtain rfl := Option.some.inj ht
    exact h.setCenter ((h.centers p).answer hstage guard)
  | fail p =>
    have hp := h.centers p
    cases hstage : (s.centers p).stage <;>
      simp only [System.step, hstage, reduceCtorEq, Option.some.injEq] at ht <;> subst ht
    all_goals
      refine h.setCenter (hp.abandon _ ?_ rfl (by simp [hstage]))
      exact fun ha => ⟨.inr (by simpa [Node.Active] using ha), rfl⟩
  | late p i =>
    obtain ⟨⟨now, expires⟩, hi, rfl⟩ := Option.map_eq_some_iff.mp ht
    exact h.late hi (guard now expires hi)
  | beginPass p =>
    have hp := h.centers p
    simp only [System.step, Option.ite_none_right_eq_some, Option.some.injEq] at ht
    obtain ⟨⟨hleader, _⟩, rfl⟩ := ht
    exact h.setCenter { hp with
      running := fun _ => hp.running (.inl hleader)
      covered := fun _ => hp.covered (.inl hleader) }
  | endPass p =>
    have hp := h.centers p
    simp only [System.step, Option.ite_none_right_eq_some, Option.some.injEq] at ht
    obtain ⟨hpass, rfl⟩ := ht
    exact h.setCenter { hp with
      running := fun _ => hp.running (.inr hpass)
      covered := fun _ => hp.covered (.inr hpass) }
  | release p =>
    obtain rfl := Option.some.inj ht
    refine ⟨fun q => (h.centers q).release fun hpq => hpq ▸ guard, ?_⟩
    have := h.lease
    dsimp only
    unfold LeaseRecord.releaseLeadership
    split_ifs <;> simp_all
  | crash p =>
    obtain rfl := Option.some.inj ht
    exact h.setCenter ((h.centers p).abandon _ (by simp [Node.Active, Node.start]) rfl rfl)

end Invariant

section Terms

variable {ttl : String → Nat} {s t : System} {p : String}

/-- The terms granted are not above that of the lease; the highest is the holder's. -/
structure System.TermsHeld (s : System) : Prop where
  bound : ∀ q term, (q, term) ∈ s.terms → term ≤ s.lease.term
  top : ∀ q, (q, s.lease.term) ∈ s.terms → s.lease.holder ≠ "" → q = s.lease.holder
  unique : ∀ p q term, (p, term) ∈ s.terms → (q, term) ∈ s.terms → p = q

/-- A center with a name keeps its term when it renews its lease, and otherwise gets a new one. -/
theorem System.TermsHeld.claim (h : s.TermsHeld) (hname : p ≠ "") (now expires : Nat) :
    (s.claim p now expires).TermsHeld := by
  unfold System.claim
  split_ifs
  · by_cases hholder : s.lease.holder = p
    · have mine : ∀ q, (q, s.lease.term) ∈ s.terms → q = p :=
        fun q hq => (h.top q hq (hholder ▸ hname)).trans hholder
      constructor <;> simp only [LeaseRecord.claim, hholder, if_true, List.mem_cons, Prod.mk.injEq]
      · rintro q term (⟨_, rfl⟩ | hq)
        · exact Nat.le_refl _
        · exact h.bound q term hq
      · rintro q (⟨rfl, _⟩ | hq) _
        · rfl
        · exact mine q hq
      · rintro q r term (⟨rfl, rfl⟩ | hq) (⟨rfl, hr⟩ | hr)
        · rfl
        · exact (mine r hr).symm
        · exact mine q (hr ▸ hq)
        · exact h.unique q r term hq hr
    · have fresh : ∀ q, (q, s.lease.term + 1) ∉ s.terms := fun q hq => by
        have := h.bound q _ hq
        omega
      constructor <;> simp only [LeaseRecord.claim, hholder, if_false, List.mem_cons, Prod.mk.injEq]
      · rintro q term (⟨_, rfl⟩ | hq)
        · exact Nat.le_refl _
        · exact Nat.le_succ_of_le (h.bound q term hq)
      · rintro q (⟨rfl, _⟩ | hq) _
        · rfl
        · exact absurd hq (fresh q)
      · rintro q r term (⟨rfl, rfl⟩ | hq) (⟨rfl, hr⟩ | hr)
        · rfl
        · exact absurd hr (fresh r)
        · exact absurd (hr ▸ hq) (fresh q)
        · exact h.unique q r term hq hr
  · exact h

theorem System.TermsHeld.release (h : s.TermsHeld) (p : String) :
    System.TermsHeld { s with lease := s.lease.releaseLeadership p } := by
  unfold LeaseRecord.releaseLeadership
  split_ifs
  · exact ⟨h.bound, fun _ _ hne => absurd rfl hne, h.unique⟩
  · exact h

theorem System.TermsHeld.step {event : Event} (h : s.TermsHeld) (sound : s.Sound ttl)
    (ht : s.step ttl event = some t) : t.TermsHeld := by
  have keep {t : System} (hlease : t.lease = s.lease) (hterms : t.terms = s.terms) : t.TermsHeld := by
    obtain ⟨bound, top, unique⟩ := h
    exact ⟨by rwa [hlease, hterms], by rwa [hlease, hterms], by rwa [hterms]⟩
  have moved (p : String) (c : Node) {t : System} (h : t.TermsHeld) : (t.setCenter p c).TermsHeld :=
    ⟨h.bound, h.top, h.unique⟩
  cases event with
  | tick now =>
    simp only [System.step, Option.ite_none_right_eq_some, Option.some.injEq] at ht
    exact ht.2 ▸ keep rfl rfl
  | renew p | send p | select p | answer p | fail p =>
    cases hstage : (s.centers p).stage <;>
      simp only [System.step, hstage, reduceCtorEq, Option.some.injEq] at ht <;> subst ht
    all_goals exact moved p _ h
  | apply p =>
    have hname := (sound.centers p).ne_empty
    cases hstage : (s.centers p).stage <;>
      simp only [System.step, hstage, reduceCtorEq, Option.some.injEq] at ht
    subst ht
    exact moved p _ (h.claim (hname (by simp [hstage])) _ _)
  | late p i =>
    obtain ⟨⟨now, expires⟩, hi, rfl⟩ := Option.map_eq_some_iff.mp ht
    refine moved p _ (h.claim (fun hp => ?_) now expires)
    simp [((sound.centers p).named hp).2] at hi
  | beginPass p | endPass p =>
    simp only [System.step, Option.ite_none_right_eq_some, Option.some.injEq] at ht
    exact ht.2 ▸ moved p _ h
  | release p => exact Option.some.inj ht ▸ h.release p
  | crash p => exact Option.some.inj ht ▸ moved p _ h

end Terms

section Exclusion

/-- A step that meets the condition. -/
def GuardedStep (ttl : String → Nat) (s : System) (event : Event) (t : System) : Prop :=
  s.Guarded event ∧ s.step ttl event = some t

/-- No two centers are inside a failover pass at the same moment, and no term was granted to two
centers. -/
structure System.Exclusive (s : System) : Prop where
  pass : ∀ p q, (s.centers p).inPass = true → (s.centers q).inPass = true → p = q
  term : ∀ p q term, (p, term) ∈ s.terms → (q, term) ∈ s.terms → p = q

/-- In every run of any number of centers from an empty store whose steps all meet the condition,
failover is run by one center at a time. -/
theorem failover_exclusive {ttl : String → Nat} {clock : Nat} {events : List Event} {s : System}
    (run : Run (GuardedStep ttl) (.start clock) events s) : s.Exclusive := by
  have start : (System.start clock).Sound ttl ∧ (System.start clock).TermsHeld := by
    refine ⟨⟨fun p => ?_, Nat.zero_le _⟩, ?_⟩
    · constructor <;> simp [System.start, Node.start, Node.Active, Node.Granted, Stage.abandoned]
    · constructor <;> simp [System.start]
  obtain ⟨sound, terms⟩ := run.invariant (fun s => s.Sound ttl ∧ s.TermsHeld)
    (fun _ _ _ h step => ⟨h.1.step step.1 step.2, h.2.step h.1 step.2⟩) start
  refine ⟨fun p q hp hq => ?_, terms.unique⟩
  exact ((sound.centers p).covered (.inr hp)).unique ((sound.centers p).running (.inr hp))
    ((sound.centers q).covered (.inr hq)) ((sound.centers q).running (.inr hq))

end Exclusion

section Sample

/-- Both centers ask for a lease of fifteen seconds. -/
def sampleTtl (_ : String) : Nat := 15

/-- A center takes the lease and begins a pass. -/
def sampleLead (p : String) : List Event :=
  [.renew p, .send p, .apply p, .answer p, .beginPass p]

/-- The first center begins a pass and its next renewal hangs; when its lease has ended the second
center takes over. -/
def sampleStall : List Event :=
  sampleLead "center-a" ++ [.renew "center-a", .send "center-a", .tick 15] ++ sampleLead "center-b"

def sampleSplit : System :=
  (sampleStall.foldlM (System.step sampleTtl) (.start 0)).get (by decide)

/-- Two centers are inside a failover pass at the same moment. -/
theorem two_centers_in_pass :
    Run (fun s e t => s.step sampleTtl e = some t) (.start 0) sampleStall sampleSplit ∧
      ¬ sampleSplit.Exclusive := by
  refine ⟨.of_foldlM (Option.some_get _).symm, fun exclusive => ?_⟩
  exact absurd (exclusive.pass "center-a" "center-b" (by decide) (by decide)) (by decide)

/-- The second center asks in time and is told that the lease is taken. -/
def sampleRefused : List Event :=
  sampleLead "center-a" ++
    [.renew "center-b", .send "center-b", .apply "center-b", .select "center-b", .answer "center-b",
      .tick 10]

def sampleLed : System :=
  (sampleRefused.foldlM (System.step sampleTtl) (.start 0)).get (by decide)

theorem sampleLed_run : Run (GuardedStep sampleTtl) (.start 0) sampleRefused sampleLed := by
  have named : "center-a" ≠ "" ∧ "center-b" ≠ "" := by decide
  refine .cons ⟨named.1, rfl⟩ (.cons ⟨trivial, rfl⟩ (.cons ⟨trivial, rfl⟩ (.cons ⟨?_, rfl⟩
    (.cons ⟨trivial, rfl⟩ (.cons ⟨named.2, rfl⟩ (.cons ⟨trivial, rfl⟩ (.cons ⟨trivial, rfl⟩
    (.cons ⟨trivial, rfl⟩ (.cons ⟨?_, rfl⟩ (.cons ⟨?_, rfl⟩ (.nil _)))))))))))
  · rintro info ⟨hinfo, _⟩
    obtain rfl := Stage.reply.inj hinfo
    decide
  · rintro info ⟨hinfo, hself⟩
    obtain rfl := Stage.reply.inj hinfo
    exact absurd hself (by decide)
  · intro p hactive
    by_cases ha : p = "center-a"
    · subst ha
      decide
    · by_cases hb : p = "center-b"
      · subst hb
        exact absurd hactive (by unfold Node.Active; decide)
      · simp [Node.Active, System.setCenter, System.start, Node.start, Function.update_of_ne ha,
          Function.update_of_ne hb] at hactive

theorem failover_exclusive_sample :
    (sampleLed.centers "center-a").inPass = true ∧ sampleLed.Exclusive :=
  ⟨by decide, failover_exclusive sampleLed_run⟩

end Sample

end Magnetite.Center
