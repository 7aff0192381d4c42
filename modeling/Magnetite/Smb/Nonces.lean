import Magnetite.Smb.Admission

/-!
# Keys and nonces of encrypted replies

Each connection counts the replies that it encrypts and makes the nonce from the count. So no nonce
comes twice on a connection. Between connections it is the session keys that keep replies apart: two
connections with the same one start to count anew under the same key.
-/
namespace Magnetite.Smb.Connection

open Magnetite.Lib Magnetite.Lib.Ndr

variable {ρ : Type} {srv : Server ρ} {now : Moment ρ} {conn : Connection ρ} {raw m : List UInt8}
  {out : Outcome ρ} {depth : ℕ}

/-! ## One frame -/

section Frame

/-- Counts an encrypted reply, and nothing else. -/
structure Counts (conn : Connection ρ) (out : Outcome ρ) : Prop where
  silent : out.sealedUnder = none → out.conn.nonceCtr = conn.nonceCtr
  counted : ∀ key nonce, out.sealedUnder = some (key, nonce) → out.conn.encKey = some key ∧
    out.conn.nonceCtr = conn.nonceCtr + 1 ∧
    ∃ cipher, nonce = Primitives.nonceOf cipher out.conn.nonceCtr

theorem Counts.of_silent (h : out.sealedUnder = none) (hctr : out.conn.nonceCtr = conn.nonceCtr) :
    Counts conn out :=
  ⟨fun _ => hctr, fun _ _ hsealed => by rw [h] at hsealed; cases hsealed⟩

theorem sealedUnder_handlePlainInner (fromEncrypted : Bool) :
    (handlePlainInner srv now conn m fromEncrypted).sealedUnder = none := by
  unfold handlePlainInner
  dsimp only
  split_ifs <;> rfl

theorem counts_reencrypted {inner : Outcome ρ} (raw plaintext : List UInt8)
    (h : inner.sealedUnder = none) (hctr : inner.conn.nonceCtr = conn.nonceCtr) :
    Counts conn (reencrypted srv raw plaintext inner) := by
  unfold reencrypted
  split
  · rename_i response encKey _ hkey
    refine ⟨fun hnone => (by cases hnone), fun key nonce hsealed => ?_⟩
    obtain ⟨rfl, rfl⟩ := Prod.mk.inj (Option.some.inj hsealed)
    exact ⟨hkey, congrArg (· + 1) hctr, _, rfl⟩
  · exact .of_silent h hctr

theorem counts_handleMessage (m : List UInt8) : Counts conn (handleMessage srv now conn m) := by
  have hplain (fromEncrypted : Bool) (m : List UInt8) :
      (handlePlainInner srv now conn m fromEncrypted).conn.nonceCtr = conn.nonceCtr :=
    (keys_handlePlainInner fromEncrypted).1
  unfold handleMessage
  split_ifs
  · unfold handleEncrypted
    cases conn.decKey with
    | none => exact .of_silent rfl rfl
    | some key =>
      dsimp only
      cases srv.crypto.decrypt conn.cipher key m with
      | none => exact .of_silent rfl rfl
      | some text =>
        exact counts_reencrypted m text (sealedUnder_handlePlainInner true) (hplain true text)
  · exact .of_silent (sealedUnder_handlePlainInner false) (hplain false m)

theorem counts_handle (h : handle srv now depth conn raw = some out) : Counts conn out := by
  obtain hagrees | ⟨m, -, hagrees⟩ := handle_cases h
  · exact .of_silent hagrees.sealedUnder (congrArg nonceCtr hagrees.conn)
  · have hcounts := @counts_handleMessage _ srv now conn m
    constructor
    · rw [hagrees.sealedUnder, hagrees.conn]
      exact hcounts.silent
    · rw [hagrees.sealedUnder, hagrees.conn]
      exact hcounts.counted

end Frame

/-! ## Where the key of a reply comes from -/

section Derivation

/-- The session key that a frame established. -/
def established (srv : Server ρ) (f : Handled ρ) : Option (List UInt8) :=
  f.out.executed.bind fun request =>
    if le16 request.msg 12 = smb2SessionSetup then
      (establishedKey srv f.now request.msg).filter fun key => 16 ≤ key.length
    else none

/-- The frame established a session key and made a key for replies from it. -/
def Makes (srv : Server ρ) (f : Handled ρ) (sessionKey key : List UInt8) : Prop :=
  established srv f = some sessionKey ∧ ∃ conn request, Handles srv conn f ∧
    f.out.executed = some request ∧
    key = (cipherKeysFor srv (hashRequest srv conn request.msg) sessionKey (sessionKey.take 16)).1

theorem encKey_withProtection {key encKey : List UInt8}
    (h : (withProtection srv conn key (key.take 16)).encKey = some encKey) :
    conn.encKey = some encKey ∨ encKey = (cipherKeysFor srv conn key (key.take 16)).1 := by
  unfold withProtection at h
  dsimp only at h
  split_ifs at h
  · exact .inr (Option.some.inj h).symm
  · exact .inl h
  · exact .inr (Option.some.inj h).symm
  · exact .inl h

/-- A connection encrypts with the key it had, or with one made from the session key that the frame
established. -/
theorem encKey_of_handles {f : Handled ρ} (hf : Handles srv conn f) {encKey : List UInt8}
    (h : f.out.conn.encKey = some encKey) :
    conn.encKey = some encKey ∨ ∃ sessionKey, Makes srv f sessionKey encKey := by
  have ⟨depth, hhandle⟩ := hf
  obtain hkept | ⟨request, hexecuted, hsetup, hkeys⟩ := keys_handle hhandle
  · exact .inl ((Prod.mk.inj (Prod.mk.inj hkept).2).1 ▸ h)
  · have hkept : (hashRequest srv conn request.msg).keys = conn.keys :=
      (Prod.mk.inj protection_hashRequest).1
    have hstart : (hashRequest srv conn request.msg).encKey = conn.encKey :=
      (Prod.mk.inj (Prod.mk.inj hkept).2).1
    unfold keysWith at hkeys
    cases hkey : establishedKey srv f.now request.msg with
    | none =>
      rw [hkey] at hkeys
      exact .inl (hstart ▸ (Prod.mk.inj (Prod.mk.inj hkeys).2).1 ▸ h)
    | some key =>
      rw [hkey] at hkeys
      dsimp only at hkeys
      split_ifs at hkeys with hlong
      · have henc := (Prod.mk.inj (Prod.mk.inj hkeys).2).1
        rw [henc] at h
        refine (encKey_withProtection h).imp (fun h => hstart ▸ h) fun h =>
          ⟨key, ?_, conn, request, hf, hexecuted, h⟩
        simp [established, hexecuted, hsetup, hkey, hlong]
      · exact .inl (hstart ▸ (Prod.mk.inj (Prod.mk.inj hkeys).2).1 ▸ h)

end Derivation

/-! ## Any number of connections -/

section Connections

/-- A frame on one of the connections. -/
structure Event (ρ : Type) where
  peer : ℕ
  frame : Handled ρ

/-- Frames of different connections come in any order. -/
def serve (srv : Server ρ) (conns : ℕ → Connection ρ) (e : Event ρ) (conns' : ℕ → Connection ρ) :
    Prop :=
  step srv (conns e.peer) e.frame (conns' e.peer) ∧ ∀ i ≠ e.peer, conns' i = conns i

/-- Keys and nonces of the encrypted replies. -/
def pairs (events : List (Event ρ)) : List (List UInt8 × List UInt8) :=
  events.filterMap (·.frame.out.sealedUnder)

/-- No two connections set up sessions with the same first 16 bytes of the session key. -/
def Fresh (srv : Server ρ) (events : List (Event ρ)) : Prop :=
  ∀ e ∈ events, ∀ e' ∈ events, e.peer ≠ e'.peer → ∀ key key',
    established srv e.frame = some key → established srv e'.frame = some key' →
    key.take 16 ≠ key'.take 16

/-- The frames of the run make different keys from different session keys. -/
def CollisionFree (srv : Server ρ) (events : List (Event ρ)) : Prop :=
  ∀ e ∈ events, ∀ e' ∈ events, ∀ sessionKey sessionKey' key, Makes srv e.frame sessionKey key →
    Makes srv e'.frame sessionKey' key → sessionKey.take 16 = sessionKey'.take 16

variable {conns conns' : ℕ → Connection ρ} {events : List (Event ρ)}

theorem serve_silent {e : Event ρ} (h : serve srv conns e conns')
    (hsealed : e.frame.out.sealedUnder = none) (i : ℕ) :
    (conns' i).nonceCtr = (conns i).nonceCtr := by
  obtain ⟨⟨⟨depth, hhandle⟩, -, hconn⟩, hother⟩ := h
  by_cases hi : i = e.peer
  · rw [hi, ← hconn]
    exact (counts_handle hhandle).silent hsealed
  · rw [hother i hi]

theorem serve_counted {e : Event ρ} (h : serve srv conns e conns') {key nonce : List UInt8}
    (hsealed : e.frame.out.sealedUnder = some (key, nonce)) :
    (conns' e.peer).encKey = some key ∧
      (conns' e.peer).nonceCtr = (conns e.peer).nonceCtr + 1 ∧
      ∃ cipher, nonce = Primitives.nonceOf cipher (conns' e.peer).nonceCtr := by
  obtain ⟨⟨⟨depth, hhandle⟩, -, hconn⟩, -⟩ := h
  rw [← hconn]
  exact (counts_handle hhandle).counted key nonce hsealed

/-- The count of a connection only grows, by one with each frame at most. -/
theorem nonceCtr_le (run : Run (serve srv) conns events conns') (i : ℕ) :
    (conns i).nonceCtr ≤ (conns' i).nonceCtr ∧
      (conns' i).nonceCtr ≤ (conns i).nonceCtr + events.length := by
  induction run with
  | nil => simp
  | @cons s t u e es hserve _ ih =>
    have hstep : (s i).nonceCtr ≤ (t i).nonceCtr ∧ (t i).nonceCtr ≤ (s i).nonceCtr + 1 := by
      cases hsealed : e.frame.out.sealedUnder with
      | none =>
        rw [serve_silent hserve hsealed i]
        omega
      | some pair =>
        by_cases hi : i = e.peer
        · rw [hi, (serve_counted hserve hsealed).2.1]
          omega
        · rw [hserve.2 i hi]
          omega
    rw [List.length_cons]
    omega

/-- A reply of a run has a nonce from the counts that its connection went through. -/
theorem nonce_of_run (run : Run (serve srv) conns events conns') {e : Event ρ} (he : e ∈ events)
    {key nonce : List UInt8} (hsealed : e.frame.out.sealedUnder = some (key, nonce)) :
    ∃ cipher n, nonce = Primitives.nonceOf cipher n ∧ (conns e.peer).nonceCtr < n ∧
      n ≤ (conns' e.peer).nonceCtr := by
  induction run with
  | nil => cases he
  | @cons s t u d es hserve hrest ih =>
    obtain rfl | he := List.mem_cons.mp he
    · obtain ⟨-, hnext, cipher, hnonce⟩ := serve_counted hserve hsealed
      exact ⟨cipher, _, hnonce, by omega, (nonceCtr_le hrest _).1⟩
    · obtain ⟨cipher, n, hnonce, hlt, hle⟩ := ih he
      have := (nonceCtr_le (.cons hserve (.nil t)) e.peer).1
      exact ⟨cipher, n, hnonce, by omega, hle⟩

/-- The key of a reply was there from the start, or is made from a session key that its connection
established during the run. -/
theorem key_of_run (run : Run (serve srv) conns events conns') {e : Event ρ} (he : e ∈ events)
    {key nonce : List UInt8} (hsealed : e.frame.out.sealedUnder = some (key, nonce)) :
    (conns e.peer).encKey = some key ∨ ∃ d ∈ events, d.peer = e.peer ∧
      ∃ sessionKey, Makes srv d.frame sessionKey key := by
  induction run with
  | nil => cases he
  | @cons s t u d es hserve hrest ih =>
    -- the key after the first frame is the one before it, or comes from it
    have hfirst (h : (t e.peer).encKey = some key) : (s e.peer).encKey = some key ∨
        ∃ d' ∈ d :: es, d'.peer = e.peer ∧ ∃ sessionKey, Makes srv d'.frame sessionKey key := by
      by_cases hpeer : e.peer = d.peer
      · rw [hpeer] at h ⊢
        obtain ⟨⟨hhandles, -, hconn⟩, -⟩ := hserve
        rw [← hconn] at h
        exact (encKey_of_handles hhandles h).imp_right fun hmade => ⟨d, by simp, rfl, hmade⟩
      · rw [hserve.2 _ hpeer] at h
        exact .inl h
    obtain rfl | he := List.mem_cons.mp he
    · exact hfirst (serve_counted hserve hsealed).1
    · obtain hkey | ⟨d', hd', hmade⟩ := ih he
      · exact hfirst hkey
      · exact .inr ⟨d', List.mem_cons_of_mem _ hd', hmade⟩

/-- Two replies of one connection have different nonces. -/
theorem pairwise_nonces (run : Run (serve srv) conns events conns')
    (hbound : ∀ i, (conns' i).nonceCtr < 2 ^ 64) :
    events.Pairwise fun e e' => e.peer = e'.peer → ∀ pair pair',
      e.frame.out.sealedUnder = some pair → e'.frame.out.sealedUnder = some pair' →
      pair.2 ≠ pair'.2 := by
  induction run with
  | nil => exact .nil
  | @cons s t u e es hserve hrest ih =>
    refine List.pairwise_cons.mpr ⟨fun e' he' hpeer pair pair' hsealed hsealed' hnonce => ?_,
      ih hbound⟩
    obtain ⟨-, -, cipher, hfirst⟩ := serve_counted hserve hsealed
    obtain ⟨cipher', n, hlater, hlt, hle⟩ := nonce_of_run hrest he' hsealed'
    rw [hfirst, hlater, hpeer] at hnonce
    have hn := hbound e'.peer
    have := Primitives.nonceOf_injective (by omega) (by omega) hnonce
    omega

/-- Encrypted replies never share key and nonce, if no two connections share a session key. -/
theorem pairs_nodup (run : Run (serve srv) (fun _ => .new ρ) events conns')
    (hfresh : Fresh srv events) (hcollision : CollisionFree srv events)
    (hlength : events.length < 2 ^ 64) : (pairs events).Nodup := by
  have hbound (i : ℕ) : (conns' i).nonceCtr < 2 ^ 64 :=
    (nonceCtr_le run i).2.trans_lt (by simpa [Connection.new] using hlength)
  have hnonces := pairwise_nonces run hbound
  have hkeys : ∀ e ∈ events, ∀ key nonce, e.frame.out.sealedUnder = some (key, nonce) →
      ∃ d ∈ events, d.peer = e.peer ∧ ∃ sessionKey, Makes srv d.frame sessionKey key :=
        fun e he key nonce hsealed =>
    (key_of_run run he hsealed).resolve_left (by simp [Connection.new])
  refine List.pairwise_filterMap.mpr (List.Pairwise.imp_of_mem ?_ hnonces)
  intro e e' he he' hsame pair hpair pair' hpair' heq
  by_cases hpeer : e.peer = e'.peer
  · exact hsame hpeer pair pair' hpair hpair' (congrArg Prod.snd heq)
  · obtain ⟨d, hd, hdpeer, key, hmade⟩ := hkeys e he _ _ hpair
    obtain ⟨d', hd', hdpeer', key', hmade'⟩ := hkeys e' he' _ _ hpair'
    rw [← heq] at hmade'
    exact hfresh d hd d' hd' (by rw [hdpeer, hdpeer']; exact hpeer) key key' hmade.1 hmade'.1
      (hcollision d hd d' hd' key key' _ hmade hmade')

/-- The frames of one connection, while the others rest. -/
theorem run_of_peer {frames : List (Handled ρ)} (i : ℕ)
    (run : Run (step srv) (conns i) frames conn) :
    Run (serve srv) conns (frames.map (⟨i, ·⟩)) (Function.update conns i conn) := by
  induction frames generalizing conns with
  | nil =>
    cases run
    rw [Function.update_eq_self]
    exact .nil conns
  | cons f frames ih =>
    cases run with
    | @cons _ middle _ _ _ hstep hrest =>
      have hserve : serve srv conns ⟨i, f⟩ (Function.update conns i middle) :=
        ⟨by rw [Function.update_self]; exact hstep, fun j hj => Function.update_of_ne hj ..⟩
      have hlater : Run (serve srv) (Function.update conns i middle) (frames.map (⟨i, ·⟩))
          (Function.update (Function.update conns i middle) i conn) :=
        ih (by rwa [Function.update_self])
      rw [Function.update_idem] at hlater
      exact .cons hserve hlater

end Connections

/-! ## Two connections to try out -/

section Sample

/-- Sets up a session with encryption and sends an encrypted request. -/
def sampleFrames (key : List UInt8) : List (Handled Unit) :=
  let negotiated := sampleHandled (.new Unit) (sampleNegotiate globalCapEncryption)
  let setUp := sampleHandled negotiated.out.conn (sampleSetup key)
  let request := samplePrimitives.encrypt .ccm128 key 0 1 (sampleRequest smb2Logoff 0 [])
  [negotiated, setUp, sampleHandled setUp.out.conn request]

def sampleEvents (peer : ℕ) (key : List UInt8) : List (Event Unit) :=
  (sampleFrames key).map (⟨peer, ·⟩)

def otherKey : List UInt8 := Text.asciiBytes "fedcba9876543210"

theorem run_sampleFrames {key : List UInt8}
    (h : (sampleFrames key).all fun f => !isCompressed f.raw && f.out.reply.isSome) :
    ∃ conn, Run (step sampleServer) (.new Unit) (sampleFrames key) conn := by
  simp only [sampleFrames, List.all_cons, List.all_nil, Bool.and_true, Bool.and_eq_true,
    Bool.not_eq_true'] at h
  obtain ⟨⟨hplain, hreply⟩, ⟨hplain', hreply'⟩, hplain'', hreply''⟩ := h
  exact ⟨_, .cons ⟨handles_sampleHandled _ hplain, hreply, rfl⟩
    (.cons ⟨handles_sampleHandled _ hplain', hreply', rfl⟩
      (.cons ⟨handles_sampleHandled _ hplain'', hreply'', rfl⟩ (.nil _)))⟩

theorem run_sampleEvents {key key' : List UInt8}
    (h : (sampleFrames key).all fun f => !isCompressed f.raw && f.out.reply.isSome)
    (h' : (sampleFrames key').all fun f => !isCompressed f.raw && f.out.reply.isSome) :
    ∃ conns, Run (serve sampleServer) (fun _ => .new Unit)
      (sampleEvents 0 key ++ sampleEvents 1 key') conns := by
  obtain ⟨conn, hrun⟩ := run_sampleFrames h
  obtain ⟨conn', hrun'⟩ := run_sampleFrames h'
  exact ⟨_, .append (run_of_peer 0 hrun) (run_of_peer 1 hrun')⟩

theorem cipherKeys_sample (conn : Connection Unit) {key : List UInt8} (hlong : 16 ≤ key.length) :
    (cipherKeysFor sampleServer conn key (key.take 16)).1.take 16 = key.take 16 := by
  have hlen : min 16 (conn.cipher.keyLen * 8 / 8) = 16 := by cases conn.cipher <;> rfl
  have hfit {ki : List UInt8} (hki : 16 ≤ ki.length) (data : List UInt8) :
      (sampleServer.crypto.hmacSha256 ki data).take 16 = ki.take 16 := by
    change (sampleFit 32 ki).take 16 = ki.take 16
    rw [sampleFit, List.take_append_of_le_length (by rw [List.length_take]; omega), List.take_take]
    rfl
  have hshort : 16 ≤ (key.take 16).length := by rw [List.length_take]; omega
  have htake : (key.take 16).take 16 = key.take 16 := by rw [List.take_take, Nat.min_self]
  unfold cipherKeysFor
  split_ifs
  · simp only [Primitives.encryptionKeys311, Primitives.kdf, List.take_take, hlen,
      Primitives.kdfBlock, hfit hlong]
  · simp only [Primitives.encryptionKeys311, Primitives.kdf, List.take_take, hlen,
      Primitives.kdfBlock, hfit hshort, Nat.min_self]
  · simp only [Primitives.encryptionKeys, Primitives.kdfCounter, Nat.min_self,
      Primitives.kdfBlock, hfit hshort, List.take_take]

theorem collisionFree_sample (events : List (Event Unit)) : CollisionFree sampleServer events := by
  have hlong {f : Handled Unit} {key : List UInt8} (h : established sampleServer f = some key) :
      16 ≤ key.length := by
    obtain ⟨request, -, hkey⟩ := Option.bind_eq_some_iff.mp h
    split_ifs at hkey
    simpa using (Option.filter_eq_some_iff.mp hkey).2
  rintro e - e' - sessionKey sessionKey' _ ⟨hkey, conn, request, -, -, rfl⟩
    ⟨hkey', conn', request', -, -, heq⟩
  rw [← cipherKeys_sample _ (hlong hkey), heq, cipherKeys_sample _ (hlong hkey')]

/-- Both connections bring the same session key, one of them by sending the recorded messages of the
other: their first encrypted replies have the same key and nonce. -/
theorem pairs_replayed : (∃ conns, Run (serve sampleServer) (fun _ => .new Unit)
      (sampleEvents 0 sampleKey ++ sampleEvents 1 sampleKey) conns) ∧
    pairs (sampleEvents 0 sampleKey ++ sampleEvents 1 sampleKey) =
      [(sampleKey, Primitives.nonceOf .ccm128 1), (sampleKey, Primitives.nonceOf .ccm128 1)] :=
  ⟨run_sampleEvents (by decide +kernel) (by decide +kernel), by decide +kernel⟩

theorem fresh_sample : Fresh sampleServer (sampleEvents 0 sampleKey ++ sampleEvents 1 otherKey) := by
  have hestablished : (sampleEvents 0 sampleKey ++ sampleEvents 1 otherKey).map
      (fun e => (e.peer, established sampleServer e.frame)) =
      [(0, none), (0, some sampleKey), (0, none), (1, none), (1, some otherKey), (1, none)] := by
    decide +kernel
  have hmem {e : Event Unit} (he : e ∈ sampleEvents 0 sampleKey ++ sampleEvents 1 otherKey)
      {key : List UInt8} (hkey : established sampleServer e.frame = some key) :
      e.peer = 0 ∧ key = sampleKey ∨ e.peer = 1 ∧ key = otherKey := by
    have := List.mem_map_of_mem (f := fun e => (e.peer, established sampleServer e.frame)) he
    rw [hestablished, hkey] at this
    simpa using this
  intro e he e' he' hpeer key key' hkey hkey'
  obtain ⟨hp, rfl⟩ | ⟨hp, rfl⟩ := hmem he hkey <;> obtain ⟨hp', rfl⟩ | ⟨hp', rfl⟩ := hmem he' hkey'
  · exact absurd (hp.trans hp'.symm) hpeer
  · decide +kernel
  · decide +kernel
  · exact absurd (hp.trans hp'.symm) hpeer

/-- With different session keys, the replies of two connections have different pairs. -/
theorem pairs_nodup_sample :
    (pairs (sampleEvents 0 sampleKey ++ sampleEvents 1 otherKey)).length = 2 ∧
    (pairs (sampleEvents 0 sampleKey ++ sampleEvents 1 otherKey)).Nodup := by
  obtain ⟨conns, hrun⟩ := @run_sampleEvents sampleKey otherKey (by decide +kernel) (by decide +kernel)
  exact ⟨by decide +kernel, pairs_nodup hrun fresh_sample (collisionFree_sample _) (by decide)⟩

end Sample

end Magnetite.Smb.Connection
