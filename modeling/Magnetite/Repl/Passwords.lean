import Magnetite.Lib.System
import Magnetite.Repl.Principals

/-!
# Passwords written here and elsewhere

A password is changed by a local write, which stamps the object, or by a replicated change, which
stamps the password. Each writer decides by its own stamp, so that the two agree on the later
password only while their stamps stay in step.
-/
namespace Magnetite.Repl

open Magnetite.Addc (AdPrincipal)
open Magnetite.Lib
open Db (PrincipalUpdate)

variable {κ : Type}

/-- A write of one account. -/
inductive Write (κ : Type) where
  | here (now : Int) (rid : Nat) (password : String) (ntHash : κ) (kerberosKey : Option κ)
  | replicated (u : PrincipalUpdate κ)

/-- A store, with the passwords that were written to the account so far, each with the stamp its
write carried. This record is read by no step. -/
structure Written (κ : Type) where
  db : Db κ
  writes : List (SecretWrite κ)

/-- A write and what it leaves; a local write whose key cannot be derived is not made. -/
def Written.next (derive : String → Option κ) (sam : String) (s : Written κ) :
    Write κ → Option (Written κ)
  | .here now rid password ntHash kerberosKey => do
    let (stamp, db) ← s.db.upsertLocalPrincipal derive now sam rid password ntHash kerberosKey
    let kerberosKey ← kerberosKey <|> derive password
    some { db, writes := s.writes ++ [⟨stamp, ntHash, some kerberosKey⟩] }
  | .replicated u =>
    some { db := (s.db.applyReplicatedPrincipalMerged sam u).2, writes := s.writes ++ [u.secret] }

/-- The key of a change made here to the account. -/
def Db.localKey (db : Db κ) (now : Int) (sam : String) : ℕ ×ₗ ℤ ×ₗ ℕ :=
  toLex (((db.replStamp sam).elim 1 (·.version + 1)).toNat, toLex (now, db.invocationId.toNat))

/-- What a write must meet. A local write has a later stamp than all passwords written before it. A
replicated password that is later than the last one replicated is not earlier than any written
before it. -/
def Written.Guarded (sam : String) (s : Written κ) : Write κ → Prop
  | .here now _ _ _ _ => ∀ w ∈ s.writes, w.stamp.key < s.db.localKey now sam
  | .replicated u => (∀ held ∈ s.db.replStamp (Db.secretKey sam), held.key < u.secretStamp.key) →
      ∀ w ∈ s.writes, w.stamp.key ≤ u.secretStamp.key

def Written.Step (derive : String → Option κ) (sam : String) (s : Written κ) (w : Write κ)
    (t : Written κ) : Prop :=
  s.Guarded sam w ∧ s.next derive sam w = some t

/-- The password of the account is the one of the given write. -/
def Db.Holds (db : Db κ) (sam : String) (w : SecretWrite κ) : Prop :=
  ∃ p, db.principals[sam]? = some p ∧ p.ntHash = w.ntHash ∧ p.kerberosKey = w.kerberosKey

/-- Once a password was written, the account has one that no other write wins over. -/
def Written.Latest (sam : String) (s : Written κ) : Prop :=
  s.writes ≠ [] → ∃ w ∈ s.writes, s.db.Holds sam w ∧ ∀ v ∈ s.writes, ¬ v.stamp.winsOver w.stamp

structure Written.Sound (sam : String) (s : Written κ) : Prop where
  latest : s.Latest sam
  whole : (s.db.account sam).Whole
  /-- The stamp of the password is the one of a write. -/
  stamped : ∀ held ∈ s.db.replStamp (Db.secretKey sam), ∃ w ∈ s.writes, w.stamp.key = held.key

/-- A local write replaces the account and the stamp of the object, and leaves the stamp of the
password as it was. -/
theorem account_upsertLocalPrincipal {derive : String → Option κ} {db db' : Db κ} {now : Int}
    {sam password : String} {rid : Nat} {ntHash : κ} {kerberosKey : Option κ} {stamp : ReplStamp}
    (h : db.upsertLocalPrincipal derive now sam rid password ntHash kerberosKey =
      some (stamp, db')) :
    stamp.key = db.localKey now sam ∧ ∃ k, (kerberosKey <|> derive password) = some k ∧
      db'.account sam = ⟨some ⟨rid, ntHash, some k, false⟩, some stamp, (db.account sam).secret⟩ := by
  obtain ⟨k, hk, h⟩ := Option.bind_eq_some_iff.mp h
  obtain ⟨rfl, rfl⟩ := Prod.mk.inj (Option.some.inj h)
  refine ⟨rfl, k, hk, ?_⟩
  have hne : ¬ sam = Db.secretKey sam := ne_secretKey sam
  simp only [Db.account, Db.writePrincipalStamped, Db.replStamp, Std.ExtTreeMap.getElem?_insert,
    Std.compare_eq_iff_eq, hne, if_true, if_false]

/-- A replicated password that wins is stored with its stamp. -/
theorem Account.merge_secret_taken {a : Account κ} {u : PrincipalUpdate κ} (h : a.secretWins u)
    (usn : Int) :
    (∃ p, (a.merge usn u).row = some p ∧ p.ntHash = u.ntHash ∧ p.kerberosKey = u.kerberosKey) ∧
      (a.merge usn u).secret = some { u.secretStamp with localUsn := usn } := by
  simp [Account.merge, h]

/-- One that does not win leaves the password and its stamp. -/
theorem Account.merge_secret_kept {a : Account κ} {u : PrincipalUpdate κ} (h : ¬ a.secretWins u)
    (usn : Int) {p : AdPrincipal κ} (hp : a.row = some p) :
    (∃ q, (a.merge usn u).row = some q ∧ q.ntHash = p.ntHash ∧ q.kerberosKey = p.kerberosKey) ∧
      (a.merge usn u).secret = a.secret := by
  cases ho : a.objectWins u <;> simp [Account.merge, h, ho, hp]

namespace Written.Sound

variable {derive : String → Option κ} {sam : String} {s t : Written κ}

theorem here (h : s.Sound sam) {now : Int} {rid : Nat} {password : String} {ntHash : κ}
    {kerberosKey : Option κ} (guard : ∀ w ∈ s.writes, w.stamp.key < s.db.localKey now sam)
    (step : s.next derive sam (.here now rid password ntHash kerberosKey) = some t) :
    t.Sound sam := by
  obtain ⟨⟨stamp, db⟩, hup, hstep⟩ := Option.bind_eq_some_iff.mp step
  obtain ⟨hkey, k, hk, account⟩ := account_upsertLocalPrincipal hup
  obtain ⟨k', hk', ht⟩ := Option.bind_eq_some_iff.mp hstep
  obtain rfl : k = k' := Option.some.inj (hk.symm.trans hk')
  obtain rfl := Option.some.inj ht
  refine ⟨fun _ => ⟨⟨stamp, ntHash, some k⟩, by simp, ?_, fun v hv => ?_⟩, ?_, fun held hheld => ?_⟩
  · exact ⟨_, congrArg Account.row account, rfl, rfl⟩
  · rw [ReplStamp.winsOver_iff, not_lt]
    rcases List.mem_append.mp hv with hv | hv
    · exact hkey ▸ (guard v hv).le
    · rw [List.mem_singleton.mp hv]
  · exact fun hrow => absurd (congrArg Account.row account ▸ hrow) (by simp)
  · have secret : db.replStamp (Db.secretKey sam) = s.db.replStamp (Db.secretKey sam) :=
      congrArg Account.secret account
    obtain ⟨w, hw, he⟩ := h.stamped held (secret ▸ hheld)
    exact ⟨w, List.mem_append_left _ hw, he⟩

theorem replicated (h : s.Sound sam) {u : PrincipalUpdate κ}
    (guard : s.Guarded sam (.replicated u))
    (step : s.next derive sam (.replicated u) = some t) : t.Sound sam := by
  obtain rfl := Option.some.inj step
  have account := account_apply s.db sam u
  generalize (s.db.applyReplicatedPrincipalMerged sam u).2 = db at account ⊢
  have row : db.principals[sam]? = ((s.db.account sam).merge (s.db.highestUsn + 1) u).row :=
    congrArg Account.row account
  have secret : db.replStamp (Db.secretKey sam) =
      ((s.db.account sam).merge (s.db.highestUsn + 1) u).secret := congrArg Account.secret account
  have whole : (db.account sam).Whole := account ▸ h.whole.merge _ u
  by_cases hwin : (s.db.account sam).secretWins u
  · -- the password is taken, and the condition says that it is the latest
    obtain ⟨hrow, hsecret⟩ := Account.merge_secret_taken hwin (s.db.highestUsn + 1)
    rw [← row] at hrow
    rw [← secret] at hsecret
    have top := guard (by simpa [Account.secretWins, Db.account, Option.all_eq_true] using hwin)
    refine ⟨fun _ => ⟨u.secret, by simp, hrow, fun v hv => ?_⟩, whole, fun held hheld => ?_⟩
    · rw [ReplStamp.winsOver_iff, not_lt]
      rcases List.mem_append.mp hv with hv | hv
      · exact top v hv
      · rw [List.mem_singleton.mp hv]
    · exact ⟨u.secret, by simp, Option.some.inj (hsecret.symm.trans hheld) ▸ rfl⟩
  · -- the password loses to the one with the stamp that is held
    obtain ⟨held, hheld, hle⟩ : ∃ held ∈ s.db.replStamp (Db.secretKey sam),
        u.secretStamp.key ≤ held.key := by
      simpa [Account.secretWins, Db.account, Option.all_eq_false, ReplStamp.winsOver] using hwin
    obtain ⟨w', hw', hkey⟩ := h.stamped held hheld
    obtain ⟨w, hw, ⟨p, hp, hnt, hkerb⟩, top⟩ := h.latest (List.ne_nil_of_mem hw')
    obtain ⟨⟨q, hq, hqnt, hqkerb⟩, hsecret⟩ :=
      Account.merge_secret_kept hwin (s.db.highestUsn + 1) (a := s.db.account sam) hp
    rw [← row] at hq
    replace hsecret : db.replStamp (Db.secretKey sam) = s.db.replStamp (Db.secretKey sam) :=
      secret.trans hsecret
    refine ⟨fun _ => ⟨w, by simp [hw], ⟨q, hq, hqnt.trans hnt, hqkerb.trans hkerb⟩, fun v hv => ?_⟩,
      whole, fun held' hheld' => ?_⟩
    · rcases List.mem_append.mp hv with hv | hv
      · exact top v hv
      · have := top w' hw'
        rw [ReplStamp.winsOver_iff, not_lt] at this ⊢
        rw [List.mem_singleton.mp hv]
        exact (hle.trans hkey.ge).trans this
    · obtain ⟨w'', hw'', he⟩ := h.stamped held' (hsecret ▸ hheld')
      exact ⟨w'', by simp [hw''], he⟩

theorem step (h : s.Sound sam) {w : Write κ} (hs : s.Step derive sam w t) : t.Sound sam := by
  cases w with
  | here => exact h.here hs.1 hs.2
  | replicated => exact h.replicated hs.1 hs.2

end Written.Sound

/-- After every run of local and replicated writes to a new account whose writes meet the
condition, the account has the password of the latest write. -/
theorem latest_password {derive : String → Option κ} {sam : String} {db : Db κ} {t : Written κ}
    {writes : List (Write κ)} (fresh : db.account sam = ⟨none, none, none⟩)
    (run : Run (Written.Step derive sam) ⟨db, []⟩ writes t) : t.Latest sam := by
  have start : Written.Sound sam ⟨db, []⟩ := by
    refine ⟨fun h => absurd rfl h, fun _ => ?_, fun held hheld => ?_⟩
    · simp [fresh]
    · have : db.replStamp (Db.secretKey sam) = none := congrArg Account.secret fresh
      simp [this] at hheld
  exact (run.invariant (Written.Sound sam) (fun _ _ _ h hs => h.step hs) start).latest

section Sample

/-- An account is created here, and an older password of it then arrives from a partner. -/
def sampleOverwritten : List (Write Nat) :=
  [.here 100 1105 "new" 9 (some 9),
    .replicated (change 1105 7 (stampAt 1 50 2) (stampAt 1 50 2))]

def sampleClobbered : Written Nat :=
  (sampleOverwritten.foldlM (Written.next (fun _ => none) "jsmith") ⟨Db.new 1, []⟩).get
    (by decide +kernel)

/-- The account has the older password. -/
theorem older_password_stored :
    Run (fun s w t => Written.next (fun _ => none) "jsmith" s w = some t) ⟨Db.new 1, []⟩
        sampleOverwritten sampleClobbered ∧
      ¬ sampleClobbered.Latest "jsmith" := by
  refine ⟨.of_foldlM (Option.some_get _).symm, fun latest => ?_⟩
  obtain ⟨w, hw, ⟨p, hp, hnt, -⟩, top⟩ := latest (by decide +kernel)
  have hrow : sampleClobbered.db.principals["jsmith"]?.map (·.ntHash) = some 7 := by decide +kernel
  rw [hp, Option.map_some, hnt] at hrow
  have beaten : ∀ w ∈ sampleClobbered.writes, w.ntHash = 7 →
      ∃ v ∈ sampleClobbered.writes, v.stamp.winsOver w.stamp := by decide +kernel
  obtain ⟨v, hv, hwin⟩ := beaten w hw (Option.some.inj hrow)
  exact top v hv hwin

/-- The account arrives from a partner, its password is changed here, and then changed there. -/
def sampleInStep : List (Write Nat) :=
  [.replicated (change 1105 7 (stampAt 1 50 2) (stampAt 1 50 2)),
    .here 100 1105 "new" 9 (some 9),
    .replicated (change 1105 8 (stampAt 3 200 2) (stampAt 3 200 2))]

def sampleAgreed : Written Nat :=
  (sampleInStep.foldlM (Written.next (fun _ => none) "jsmith") ⟨Db.new 1, []⟩).get
    (by decide +kernel)

theorem sampleAgreed_run :
    Run (Written.Step (fun _ => none) "jsmith") ⟨Db.new 1, []⟩ sampleInStep sampleAgreed := by
  refine .cons ⟨fun _ => by simp, rfl⟩ (.cons ⟨?_, rfl⟩ (.cons ⟨fun _ => ?_, rfl⟩ (.nil _)))
  · unfold Written.Guarded
    decide +kernel
  · decide +kernel

theorem latest_password_sample :
    sampleAgreed.db.Holds "jsmith" ⟨stampAt 3 200 2, 8, some 8⟩ ∧ sampleAgreed.Latest "jsmith" :=
  ⟨⟨⟨1105, 8, some 8, false⟩, by decide +kernel, rfl, rfl⟩,
    latest_password (by rfl) sampleAgreed_run⟩

end Sample

end Magnetite.Repl
