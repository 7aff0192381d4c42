import Magnetite.Sso.Codes

/-!
# Revoked SSO sessions

`token` records a session beside the tokens it signs. The tokens do not name the session and
`userinfo` does not look at the table, so a revocation changes a row and no answer.
-/
namespace Magnetite.Sso
open Lib

/-- The answer gives no claims. -/
def UserInfo.Refuses (u : UserInfo) : Prop := ∃ message, u = .unauthorized message

/-- The keyring has another key or none under the token's `kid`, or the token has expired. -/
def Outdated (ring : Keyring) (now : Instant) (token : Jwt AccessClaims) : Prop :=
  (∀ key, ring.keyFor token.kid = some key → key.privatePem ≠ token.signedWith) ∨
    token.claims.exp + leeway < timestamp now

theorem decode_eq_none {ring : Keyring} {issuer : String} {now : Instant}
    {token : Jwt AccessClaims} (hiss : token.claims.iss = issuer) :
    ring.decode issuer now token = none ↔ Outdated ring now token := by
  unfold Keyring.decode Outdated
  cases hkey : ring.keyFor token.kid with
  | none => simp
  | some key =>
    by_cases hpem : key.privatePem = token.signedWith
    · simp [hpem, hiss]
    · simp [hpem]

/-- For a token of this issuer the answer depends on the keyring and the clock alone. -/
theorem userinfo_refuses {cfg : Config} {ring : Keyring} {now : Instant}
    {token : Jwt AccessClaims} (hiss : token.claims.iss = cfg.issuer) :
    (userinfo cfg ring now (.token token)).Refuses ↔ Outdated ring now token := by
  rw [← decode_eq_none hiss]
  cases hdecode : ring.decode cfg.issuer now token with
  | none => simp [UserInfo.Refuses, userinfo, hdecode]
  | some claims => simp [UserInfo.Refuses, userinfo, hdecode]

namespace Issuer

/-! ## Sessions and their tokens -/

/-- The session row was written for the request that gave this access token out. -/
def IssuedFor (past : List Label) (id : String) (token : Jwt AccessClaims) : Prop :=
  ∃ i idToken scope, (.record i id true, some (.tokens idToken token scope)) ∈ past

/-- The session's row is marked as revoked. -/
def Revoked (s : Issuer) (id : String) : Prop :=
  ∃ row ∈ s.ssoSessions, row.id = id ∧ row.revokedAt.isSome

instance (s : Issuer) (id : String) : Decidable (Revoked s id) :=
  inferInstanceAs (Decidable (∃ row ∈ s.ssoSessions, row.id = id ∧ row.revokedAt.isSome))

/-! ## Tokens carry the issuer's name -/

section Issued
variable {cfg : Config} {s₀ s t : Issuer} {out : Option Output} {past : List Label}

theorem step_record {i : Nat} {id : String} {stores : Bool}
    (h : Step cfg s (.record i id stores, out) t) :
    ∃ clientId auth idToken accessToken,
      s.tasks i = some (.recording clientId auth idToken accessToken) ∧
      out = some (.tokens idToken accessToken auth.scope) := by
  simp only [Step, step] at h
  split at h
  next clientId auth idToken accessToken htask =>
    simp only [Option.some.injEq, Prod.mk.injEq] at h
    exact ⟨clientId, auth, idToken, accessToken, htask, h.2.symm⟩
  · cases h

/-- Access tokens under way and given out name this issuer. -/
structure Named (cfg : Config) (past : List Label) (s : Issuer) : Prop where
  tasks : ∀ i clientId auth idToken accessToken,
    s.tasks i = some (.recording clientId auth idToken accessToken) →
    accessToken.claims.iss = cfg.issuer
  labels : ∀ i id stores idToken accessToken scope,
    (.record i id stores, some (.tokens idToken accessToken scope)) ∈ past →
    accessToken.claims.iss = cfg.issuer

/-- A request comes to its `recording` stage by an exchange, which signs the issuer's claims. -/
theorem recording_of_step {e : Event} (h : s.step cfg e = some (t, out)) {j : Nat}
    {clientId : String} {auth : AuthCode} {idToken : Jwt IdClaims}
    {accessToken : Jwt AccessClaims}
    (ht : t.tasks j = some (.recording clientId auth idToken accessToken)) :
    s.tasks j = some (.recording clientId auth idToken accessToken) ∨
      accessToken.claims.iss = cfg.issuer := by
  cases e with
  | authorize i r cookie reads =>
    obtain rfl | ⟨_, _, _, _, -, -, -, rfl⟩ := step_authorize h
    · exact .inl ht
    · exact .inl ((wait_tasks ht).resolve_right fun hnew => by cases hnew.2)
  | readSession i reads =>
    obtain rfl | ⟨_, _, _, _, _, _, _, -, -, -, -, rfl⟩ := step_readSession h
    · exact .inl (finish_tasks ht)
    · exact .inl ((wait_tasks ht).resolve_right fun hnew => by cases hnew.2)
  | putCode i code =>
    obtain ⟨_, _, _, _, _, _, -, -, htasks, -⟩ := step_putCode h
    exact .inl (finish_tasks (htasks ▸ ht))
  | token i r basicAuth reads =>
    obtain rfl | ⟨_, _, -, -, -, rfl⟩ := step_token h
    · exact .inl ht
    · exact .inl ((wait_tasks ht).resolve_right fun hnew => by cases hnew.2)
  | exchange i signs =>
    obtain ⟨_, _, _, _, -, -, outcome⟩ := step_exchange h
    obtain ⟨_, -, htasks⟩ | ⟨auth', idT, acT, -, -, hac, -, htasks⟩ := outcome
    · exact .inl (finish_tasks (htasks ▸ ht))
    · obtain hold | ⟨-, hnew⟩ := wait_tasks (htasks ▸ ht)
      · exact .inl hold
      · simp only [Task.recording.injEq] at hnew
        obtain ⟨-, -, -, rfl⟩ := hnew
        exact .inr (by rw [sign_claims hac]; rfl)
  | _ => exact .inl ((step_quiet (by exact trivial) h).tasks j _ ht)

theorem Named.step (h : Named cfg past s) {l : Label} (hstep : Step cfg s l t) :
    Named cfg (past ++ [l]) t where
  tasks i clientId auth idToken accessToken ht :=
    (recording_of_step hstep ht).elim (h.tasks i clientId auth idToken accessToken) id
  labels i id stores idToken accessToken scope hmem := by
    rw [List.mem_append, List.mem_singleton] at hmem
    obtain hold | rfl := hmem
    · exact h.labels i id stores idToken accessToken scope hold
    · obtain ⟨clientId, auth, idT, acT, htask, hout⟩ := step_record hstep
      simp only [Option.some.injEq, Output.tokens.injEq] at hout
      obtain ⟨rfl, rfl, -⟩ := hout
      exact h.tasks i clientId auth idToken accessToken htask

theorem named_of_run (start : s₀.Started) (run : Run (Step cfg) s₀ past s) :
    Named cfg past s := by
  refine Run.induction_last ⟨fun i _ _ _ _ h => ?_, fun _ _ _ _ _ _ h => ?_⟩
    (fun _ _ _ _ _ h hstep => h.step hstep) run
  · simp [start.tasks] at h
  · cases h

end Issued

/-! ## Requests after a revocation -/

/-- The `userinfo` requests of a run that carry a token of a revoked session, with their
answers. -/
def AskedRevoked (cfg : Config) (s₀ : Issuer) (labels : List Label) (s : Issuer)
    (token : Jwt AccessClaims) (u : UserInfo) : Prop :=
  ∃ past future id, labels = past ++ (.userinfo (.token token), some (.userinfo u)) :: future ∧
    Run (Step cfg) s₀ past s ∧ IssuedFor past id token ∧ s.Revoked id

/-- No request with a token of a revoked session is answered, exactly when each of them comes
after the token has expired or its key has left the keyring. -/
theorem revoked_refused_iff (cfg : Config) (s₀ t : Issuer) (start : s₀.Started)
    (labels : List Label) (run : Run (Step cfg) s₀ labels t) :
    (∀ s token u, AskedRevoked cfg s₀ labels s token u → u.Refuses) ↔
      ∀ s token u, AskedRevoked cfg s₀ labels s token u → Outdated s.keyring s.now token := by
  have answer : ∀ s token u, AskedRevoked cfg s₀ labels s token u →
      (u.Refuses ↔ Outdated s.keyring s.now token) := by
    rintro s token u ⟨past, future, id, rfl, before, ⟨i, idToken, scope, hrecord⟩, -⟩
    obtain ⟨s', t', before', hstep, -⟩ := run.split_at
    obtain rfl : s' = s :=
      before'.deterministic before fun _ _ _ _ => Step.deterministic
    simp only [Step, step, Option.some.injEq, Prod.mk.injEq, Output.userinfo.injEq] at hstep
    rw [← hstep.2]
    exact userinfo_refuses ((named_of_run start before).labels _ _ _ _ _ _ hrecord)
  exact ⟨fun h s token u hask => (answer s token u hask).mp (h s token u hask),
    fun h s token u hask => (answer s token u hask).mpr (h s token u hask)⟩

namespace Sample

/-- The tokens of `codeFlow` are given out for session `s1`. -/
def recording : List Event :=
  codeFlow (some "s3cret") ++ [.exchange 1 true, .record 1 "s1" true]

def recordingLabels : List Label :=
  codeFlowLabels (some "s3cret") ++
    [signing, (.record 1 "s1" true, some (.tokens tokens.1 tokens.2 "openid"))]

/-- What a request with the access token gets while the token is valid. -/
def answered : Label :=
  (.userinfo (.token tokens.2), some (.userinfo (.claims "local:amy" none (some "Amy"))))

/-- Each way to revoke leaves the next request answered. -/
theorem revoked_session_answered :
    [Event.revokeSession "s1", .revokeWhere .subject "local:amy",
        .revokeWhere .clientRef "wiki-id"].Forall fun e =>
      ∃ s t, Run (Step config) issuer (recordingLabels ++ [(e, none)]) s ∧ s.Revoked "s1" ∧
        Step config s answered t := by
  rw [List.forall_iff_forall_mem]
  intro e he
  have holds : (trace (step config) issuer (recording ++ [e])).any (fun p => decide
      (p.1 = recordingLabels ++ [(e, none)] ∧ p.2.Revoked "s1" ∧
        (p.2.step config answered.1).map Prod.snd = some answered.2)) = true := by
    revert e he
    decide +kernel
  obtain ⟨labels, s, run, rfl, revoked, hout⟩ := exists_run config issuer (recording ++ [e])
    (fun labels s => labels = recordingLabels ++ [(e, none)] ∧ s.Revoked "s1" ∧
      (s.step config answered.1).map Prod.snd = some answered.2) holds
  obtain ⟨⟨t, out⟩, hstep, rfl⟩ := Option.map_eq_some_iff.mp hout
  exact ⟨s, t, run, revoked, hstep⟩

/-- A request two hours after the revocation. -/
def lateRequest : List Event :=
  recording ++ [.revokeSession "s1", .tick (secs 7200), .userinfo (.token tokens.2)]

def lateLabels : List Label :=
  recordingLabels ++ [(.revokeSession "s1", none), (.tick (secs 7200), none)]

def refused : Label :=
  (.userinfo (.token tokens.2), some (.userinfo (.unauthorized "invalid access token")))

theorem revoked_refused_iff_late : ∃ t,
    Run (Step config) issuer (lateLabels ++ [refused]) t ∧
      (∀ s token u, AskedRevoked config issuer (lateLabels ++ [refused]) s token u →
        u.Refuses) ∧
      ∀ s token u, AskedRevoked config issuer (lateLabels ++ [refused]) s token u →
        Outdated s.keyring s.now token := by
  obtain ⟨labels, t, run, rfl⟩ := exists_run config issuer lateRequest
    (fun labels _ => labels = lateLabels ++ [refused]) (by decide +kernel)
  have refuses : ∀ s token u, AskedRevoked config issuer (lateLabels ++ [refused]) s token u →
      u.Refuses := by
    rintro s token u ⟨past, future, id, hlabels, -⟩
    have hmem : (.userinfo (.token token), some (.userinfo u)) ∈ lateLabels ++ [refused] := by
      rw [hlabels]
      simp
    obtain ⟨-, rfl⟩ : token = tokens.2 ∧ u = .unauthorized "invalid access token" := by
      simpa [lateLabels, recordingLabels, codeFlowLabels, refused, signing] using hmem
    exact ⟨_, rfl⟩
  exact ⟨t, run, refuses, (revoked_refused_iff config issuer t issuer_started _ run).mp refuses⟩

end Sample

end Issuer

end Magnetite.Sso
