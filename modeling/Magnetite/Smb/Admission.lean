import Magnetite.Lib.System
import Magnetite.Smb.Server

/-!
# Which requests are executed

A connection gets its keys from a session setup that proves who the client is. As long as it has no
signing key, every request is executed. With a signing key a request that says it is signed must be,
and an encrypted one is executed only if it opens under the key of the session.
-/
namespace Magnetite.Smb.Connection

open Magnetite.Lib Magnetite.Lib.Ndr

variable {ρ : Type} {srv : Server ρ} {now : Moment ρ} {conn : Connection ρ} {raw msg : List UInt8}

/-! ## Where keys come from -/

section Keys

/-- The session key of an NTLM response that proves who sent it. -/
def ntlmKey (srv : Server ρ) (now : Moment ρ) (blob : List UInt8) : Option (List UInt8) :=
  let ntlm := (extractNtlmssp blob).getD blob
  let user := srv.ntlmUsername ntlm
  if !srv.verifiesNtlm then none
  else if user.getD "" = "" then none
  else (user.bind now.ntHash).bind (srv.ntlmEstablish · ntlm serverChallenge)

/-- The session key that goes with a ticket. -/
def kerberosKey (srv : Server ρ) (now : Moment ρ) (blob : List UInt8) : Option (List UInt8) :=
  match srv.serviceKey, extractApReq blob with
  | some key, some apReq => (now.verifyApReq key apReq).bind fun v => (now.buildApRep v).map (·.2)
  | _, _ => none

/-- The key of the session that a request sets up, if it proves who sent it. -/
def establishedKey (srv : Server ρ) (now : Moment ρ) (msg : List UInt8) : Option (List UInt8) :=
  match ntlmsspMessageType (securityBlob msg) with
  | some msgType => if msgType = 1 then none else ntlmKey srv now (securityBlob msg)
  | none => kerberosKey srv now (securityBlob msg)

/-- The keys that protect messages. -/
def keys (conn : Connection ρ) : Option (List UInt8) × Option (List UInt8) × Option (List UInt8) :=
  (conn.signingKey, conn.encKey, conn.decKey)

/-- The keys after a session is set up. A short session key is not used. -/
def keysWith (srv : Server ρ) (conn : Connection ρ) (established : Option (List UInt8)) :
    Option (List UInt8) × Option (List UInt8) × Option (List UInt8) :=
  match established with
  | none => conn.keys
  | some key =>
    if 16 ≤ key.length then (withProtection srv conn key (key.take 16)).keys else conn.keys

theorem keys_deriveSessionKeys (srv : Server ρ) (conn : Connection ρ) (key : List UInt8) :
    (deriveSessionKeys srv conn key).2.keys = keysWith srv conn (some key) := by
  unfold deriveSessionKeys keysWith
  by_cases hshort : key.length < 16
  · rw [if_pos hshort]
    exact (if_neg (by omega)).symm
  · have hlong : 16 ≤ key.length := by omega
    simp only [if_neg hshort, if_pos hlong]
    split_ifs <;> rfl

theorem keys_ntlmAuthenticate (blob : List UInt8) :
    (ntlmAuthenticate srv now conn blob).2.keys = keysWith srv conn (ntlmKey srv now blob) := by
  unfold ntlmAuthenticate ntlmKey
  dsimp only
  split_ifs
  · rfl
  · rfl
  · split
    · rename_i hfail
      rw [hfail]
      rfl
    · rename_i key hkey
      rw [hkey]
      exact keys_deriveSessionKeys srv conn key

theorem keys_kerberosAuthenticate (v : VerifiedApReq) :
    (kerberosAuthenticate srv now conn v).2.keys =
      keysWith srv conn ((now.buildApRep v).map (·.2)) := by
  unfold kerberosAuthenticate
  split
  · rename_i hfail
    rw [hfail]
    rfl
  · rename_i apRep key hbuild
    have htake : (key.take 16).length = 16 ↔ 16 ≤ key.length := by
      rw [List.length_take]
      omega
    rw [hbuild]
    simp only [keysWith, Option.map_some, htake]
    split_ifs <;> rfl

theorem keys_sessionSetup (srv : Server ρ) (now : Moment ρ) (conn : Connection ρ)
    (msg : List UInt8) :
    (sessionSetup srv now conn msg).2.keys = keysWith srv conn (establishedKey srv now msg) := by
  unfold sessionSetup establishedKey kerberosKey
  dsimp only
  cases ntlmsspMessageType (securityBlob msg) with
  | some msgType =>
    dsimp only
    split_ifs
    · rfl
    · exact keys_ntlmAuthenticate _
  | none =>
    cases hservice : srv.serviceKey with
    | none => rfl
    | some key =>
      cases happ : extractApReq (securityBlob msg) with
      | none => rfl
      | some apReq =>
        dsimp only
        cases now.verifyApReq key apReq with
        | none => rfl
        | some v => exact keys_kerberosAuthenticate v

/-! ### What a handler leaves alone -/

/-- The keys, and how many messages were encrypted. -/
def protection (conn : Connection ρ) :
    (Option (List UInt8) × Option (List UInt8) × Option (List UInt8)) × ℕ :=
  (conn.keys, conn.nonceCtr)

theorem protection_create (session tree : ℕ) :
    (create srv now conn msg session tree).2.protection = conn.protection := by
  unfold create
  dsimp only
  split
  · rfl
  · split <;> rfl

theorem protection_read (data : List UInt8) (session tree : ℕ) :
    (read now conn data session tree).2.protection = conn.protection := by
  unfold read
  dsimp only
  split
  · split_ifs <;> rfl
  · rfl

theorem protection_write (session tree : ℕ) :
    (write now conn msg session tree).2.protection = conn.protection := by
  unfold write
  dsimp only
  split <;> rfl

theorem protection_ioctl (data : List UInt8) (session tree : ℕ) :
    (ioctl now conn data session tree).2.protection = conn.protection := by
  unfold ioctl pipeTransceive
  dsimp only
  split_ifs
  · rfl
  · rfl
  · split <;> rfl
  · rfl

theorem protection_queryDirectory (data : List UInt8) (session tree : ℕ) :
    (queryDirectory now conn data session tree).2.protection = conn.protection := by
  unfold queryDirectory
  dsimp only
  split
  · split_ifs <;> rfl
  · rfl

theorem nonceCtr_withProtection (fullKey key16 : List UInt8) :
    (withProtection srv conn fullKey key16).nonceCtr = conn.nonceCtr := by
  unfold withProtection
  dsimp only
  split_ifs <;> rfl

theorem nonceCtr_sessionSetup : (sessionSetup srv now conn msg).2.nonceCtr = conn.nonceCtr := by
  have hderive (key : List UInt8) :
      (deriveSessionKeys srv conn key).2.nonceCtr = conn.nonceCtr := by
    unfold deriveSessionKeys
    dsimp only
    split_ifs
    · rfl
    all_goals exact nonceCtr_withProtection ..
  have hntlm (blob : List UInt8) :
      (ntlmAuthenticate srv now conn blob).2.nonceCtr = conn.nonceCtr := by
    unfold ntlmAuthenticate
    dsimp only
    split_ifs
    · rfl
    · rfl
    · split
      · rfl
      · exact hderive _
  have hkerberos (v : VerifiedApReq) :
      (kerberosAuthenticate srv now conn v).2.nonceCtr = conn.nonceCtr := by
    unfold kerberosAuthenticate
    split
    · rfl
    · dsimp only
      split_ifs
      · exact nonceCtr_withProtection ..
      · rfl
  unfold sessionSetup
  dsimp only
  split
  · split_ifs
    · rfl
    · exact hntlm _
  · split
    · split
      · exact hkerberos _
      · rfl
    · rfl

/-- A dispatched request keeps the keys, or sets up a session. -/
theorem protection_dispatch (srv : Server ρ) (now : Moment ρ) (conn : Connection ρ)
    (msg : List UInt8) :
    (dispatch srv now conn msg).2.nonceCtr = conn.nonceCtr ∧
      ((dispatch srv now conn msg).2.keys = conn.keys ∨
        le16 msg 12 = smb2SessionSetup ∧
          (dispatch srv now conn msg).2.keys = keysWith srv conn (establishedKey srv now msg)) := by
  have hkept {r : Reply × Connection ρ} (h : r.2.protection = conn.protection) :
      r.2.nonceCtr = conn.nonceCtr ∧ (r.2.keys = conn.keys ∨ le16 msg 12 = smb2SessionSetup ∧
        r.2.keys = keysWith srv conn (establishedKey srv now msg)) :=
    ⟨(Prod.mk.inj h).2, .inl (Prod.mk.inj h).1⟩
  refine dispatch_induction srv now (motive := fun r => r.2.nonceCtr = conn.nonceCtr ∧
    (r.2.keys = conn.keys ∨ le16 msg 12 = smb2SessionSetup ∧
      r.2.keys = keysWith srv conn (establishedKey srv now msg))) _ _ _ rfl rfl rfl
    (fun _ => hkept rfl) (fun hsetup => ?_) (hkept ?_) (hkept (protection_create ..))
    (hkept (protection_read ..)) (hkept (protection_write ..)) (hkept (protection_ioctl ..))
    (hkept rfl) (hkept (protection_queryDirectory ..)) (hkept ?_) (hkept rfl) (hkept rfl)
  · exact ⟨nonceCtr_sessionSetup, .inr ⟨hsetup, keys_sessionSetup ..⟩⟩
  · unfold treeConnect
    dsimp only
    split_ifs <;> rfl
  · unfold close
    dsimp only
    split <;> rfl

end Keys

/-! ## What a frame does -/

section Frames

/-- The message in a frame, behind all compression. -/
inductive Wraps : List UInt8 → List UInt8 → Prop where
  | plain {m : List UInt8} : isCompressed m = false → Wraps m m
  | compressed {raw inner m : List UInt8} :
      Comp.decompressMessage raw = some inner → Wraps inner m → Wraps raw m

/-- A message that is not compressed. -/
def handleMessage (srv : Server ρ) (now : Moment ρ) (conn : Connection ρ) (m : List UInt8) :
    Outcome ρ :=
  if isTransform m then handleEncrypted srv now conn m else handlePlainInner srv now conn m false

/-- Two outcomes that differ in the form of the reply at most. -/
structure Outcome.Agrees (out out' : Outcome ρ) : Prop where
  conn : out.conn = out'.conn
  executed : out.executed = out'.executed
  sealedUnder : out.sealedUnder = out'.sealedUnder

theorem agrees_recompressed (decompressed : List UInt8) (inner : Outcome ρ) :
    (recompressed decompressed inner).Agrees inner := by
  unfold recompressed
  split <;> exact ⟨rfl, rfl, rfl⟩

variable {m : List UInt8} {depth : ℕ} {out : Outcome ρ}

/-- Compression only changes the form of a reply. -/
theorem Wraps.handle (hm : Wraps raw m) (h : handle srv now depth conn raw = some out) :
    out.Agrees (handleMessage srv now conn m) := by
  induction hm generalizing depth out with
  | @plain m hplain =>
    cases depth with
    | zero => cases h
    | succ depth =>
      unfold Connection.handle at h
      rw [if_neg (by rw [hplain]; exact Bool.false_ne_true)] at h
      unfold handleMessage
      split_ifs at * <;> rw [← Option.some.inj h] <;> exact ⟨rfl, rfl, rfl⟩
  | @compressed raw inner m hinner _ ih =>
    cases depth with
    | zero => cases h
    | succ depth =>
      unfold Connection.handle at h
      rw [if_pos (isCompressed_of_decompress hinner), hinner] at h
      obtain ⟨out', hout', rfl⟩ := Option.map_eq_some_iff.mp h
      have hagrees := ih hout'
      have hform := agrees_recompressed inner out'
      exact ⟨hform.conn.trans hagrees.conn, hform.executed.trans hagrees.executed,
        hform.sealedUnder.trans hagrees.sealedUnder⟩

/-- A frame in which no message is found changes nothing. -/
theorem handle_cases (h : handle srv now depth conn raw = some out) :
    out.Agrees (dropped conn 0) ∨ ∃ m, Wraps raw m ∧ out.Agrees (handleMessage srv now conn m) := by
  suffices out.Agrees (dropped conn 0) ∨ ∃ m, Wraps raw m from
    this.imp_right fun ⟨m, hm⟩ => ⟨m, hm, hm.handle h⟩
  induction depth generalizing raw out with
  | zero => cases h
  | succ depth ih =>
    by_cases hcompressed : isCompressed raw
    · unfold Connection.handle at h
      rw [if_pos hcompressed] at h
      split at h
      · rw [← Option.some.inj h]
        exact .inl ⟨rfl, rfl, rfl⟩
      · rename_i inner hinner
        obtain ⟨out', hout', rfl⟩ := Option.map_eq_some_iff.mp h
        have hform := agrees_recompressed inner out'
        refine (ih hout').imp (fun hd => ?_) fun ⟨m, hm⟩ => ⟨m, .compressed hinner hm⟩
        exact ⟨hform.conn.trans hd.conn, hform.executed.trans hd.executed,
          hform.sealedUnder.trans hd.sealedUnder⟩
    · exact .inr ⟨raw, .plain (Bool.not_eq_true _ ▸ hcompressed)⟩

theorem protection_hashRequest : (hashRequest srv conn msg).protection = conn.protection := by
  unfold hashRequest
  dsimp only
  split_ifs <;> rfl

theorem protection_hashReply (command status : ℕ) (reply : List UInt8) :
    (hashReply srv conn command status reply).protection = conn.protection := by
  unfold hashReply
  split_ifs <;> rfl

theorem refused_hashRequest (fromEncrypted : Bool) :
    refused srv (hashRequest srv conn msg) msg fromEncrypted =
      refused srv conn msg fromEncrypted := by
  have hkeys := (Prod.mk.inj (@protection_hashRequest _ srv conn msg)).1
  simp only [refused, (Prod.mk.inj hkeys).1]

theorem not_isSmb1Negotiate (h : hasHeader m) : isSmb1Negotiate m = false := by
  simp only [hasHeader, Bool.and_eq_true, beq_iff_eq] at h
  simp only [isSmb1Negotiate, h.2]
  cases decide (5 ≤ m.length) <;> rfl

theorem not_isTransform (h : hasHeader m) : isTransform m = false := by
  simp only [hasHeader, Bool.and_eq_true, beq_iff_eq] at h
  simp only [isTransform, h.2]
  rfl

/-- A message in the clear is executed if it has a header and is not refused. -/
theorem executed_handlePlainInner (fromEncrypted : Bool) :
    (handlePlainInner srv now conn m fromEncrypted).executed =
      if hasHeader m && !refused srv conn m fromEncrypted then some ⟨m, fromEncrypted⟩ else none := by
  unfold handlePlainInner
  by_cases hheader : hasHeader m
  · rw [if_neg (by rw [not_isSmb1Negotiate hheader]; exact Bool.false_ne_true)]
    simp only [hheader, Bool.not_true, Bool.false_eq_true, if_false, refused_hashRequest,
      Bool.true_and]
    cases refused srv conn m fromEncrypted <;> rfl
  · rw [Bool.not_eq_true] at hheader
    simp only [hheader, Bool.not_false, if_true, Bool.false_and, Bool.false_eq_true, if_false]
    split_ifs <;> rfl

theorem not_refused_encrypted : refused srv conn m true = false := by
  unfold refused exempt
  cases conn.signingKey <;> simp

theorem executed_reencrypted (raw plaintext : List UInt8) (inner : Outcome ρ) :
    (reencrypted srv raw plaintext inner).executed = inner.executed := by
  unfold reencrypted
  split <;> rfl

/-- An encrypted message is executed if it opens and holds a request. -/
theorem executed_handleEncrypted : (handleEncrypted srv now conn m).executed =
    (conn.decKey.bind fun key => srv.crypto.decrypt conn.cipher key m).bind fun text =>
      if hasHeader text then some ⟨text, true⟩ else none := by
  unfold handleEncrypted
  cases conn.decKey with
  | none => rfl
  | some key =>
    cases hopen : srv.crypto.decrypt conn.cipher key m with
    | none => simp [hopen, dropped]
    | some text =>
      simp [hopen, executed_reencrypted, executed_handlePlainInner, not_refused_encrypted]

/-- A message keeps the keys, or it is a request that sets up a session. -/
theorem keys_handlePlainInner (fromEncrypted : Bool) :
    (handlePlainInner srv now conn m fromEncrypted).conn.nonceCtr = conn.nonceCtr ∧
      ((handlePlainInner srv now conn m fromEncrypted).conn.keys = conn.keys ∨
        ((handlePlainInner srv now conn m fromEncrypted).executed = some ⟨m, fromEncrypted⟩ ∧
          le16 m 12 = smb2SessionSetup ∧
          (handlePlainInner srv now conn m fromEncrypted).conn.keys =
            keysWith srv (hashRequest srv conn m) (establishedKey srv now m))) := by
  have ⟨hkeys, hnonce⟩ := Prod.mk.inj (@protection_hashRequest _ srv conn m)
  unfold handlePlainInner
  dsimp only
  split_ifs
  · exact ⟨rfl, .inl rfl⟩
  · exact ⟨rfl, .inl rfl⟩
  · exact ⟨hnonce, .inl hkeys⟩
  · have hdispatch := protection_dispatch srv now (hashRequest srv conn m) m
    have ⟨hkeys', hnonce'⟩ := Prod.mk.inj (@protection_hashReply _ srv
      (dispatch srv now (hashRequest srv conn m) m).2 (le16 m 12)
      (dispatch srv now (hashRequest srv conn m) m).1.status
      (signReply srv (dispatch srv now (hashRequest srv conn m) m).2 (le16 m 12)
        (buildMessage (le16 m 12) (le64 m 24) (max (le16 m 14) 1)
          (dispatch srv now (hashRequest srv conn m) m).1)))
    refine ⟨hnonce'.trans (hdispatch.1.trans hnonce), hdispatch.2.imp (fun h => ?_) fun h => ?_⟩
    · exact hkeys'.trans (h.trans hkeys)
    · exact ⟨rfl, h.1, hkeys'.trans h.2⟩

theorem keys_reencrypted (raw plaintext : List UInt8) (inner : Outcome ρ) :
    (reencrypted srv raw plaintext inner).conn.keys = inner.conn.keys := by
  unfold reencrypted
  split <;> rfl

/-- A request that sets up a session, with the keys it leaves. -/
def SetsUp (srv : Server ρ) (now : Moment ρ) (conn : Connection ρ) (out : Outcome ρ) : Prop :=
  ∃ request, out.executed = some request ∧ le16 request.msg 12 = smb2SessionSetup ∧
    out.conn.keys = keysWith srv (hashRequest srv conn request.msg)
      (establishedKey srv now request.msg)

theorem keys_handleMessage (m : List UInt8) :
    (handleMessage srv now conn m).conn.keys = conn.keys ∨
      SetsUp srv now conn (handleMessage srv now conn m) := by
  unfold handleMessage
  split_ifs
  · unfold handleEncrypted
    cases conn.decKey with
    | none => exact .inl rfl
    | some key =>
      dsimp only
      cases srv.crypto.decrypt conn.cipher key m with
      | none => exact .inl rfl
      | some text =>
        have hinner := (@keys_handlePlainInner _ srv now conn text true).2
        dsimp only [SetsUp]
        rw [keys_reencrypted, executed_reencrypted]
        exact hinner.imp_right fun ⟨hexecuted, hsetup, hkeys⟩ => ⟨_, hexecuted, hsetup, hkeys⟩
  · exact (keys_handlePlainInner false).2.imp_right
      fun ⟨hexecuted, hsetup, hkeys⟩ => ⟨_, hexecuted, hsetup, hkeys⟩

/-- A frame keeps the keys, or it sets up a session. -/
theorem keys_handle (h : handle srv now depth conn raw = some out) :
    out.conn.keys = conn.keys ∨ SetsUp srv now conn out := by
  obtain hagrees | ⟨m, -, hagrees⟩ := handle_cases h
  · exact .inl (congrArg keys hagrees.conn)
  · unfold SetsUp
    rw [hagrees.conn, hagrees.executed]
    exact keys_handleMessage m

end Frames

/-! ## Runs of a connection -/

section Runs

/-- A frame and what comes of it. -/
structure Handled (ρ : Type) where
  now : Moment ρ
  raw : List UInt8
  out : Outcome ρ

/-- What comes of a frame that is handled in this state. -/
def Handles (srv : Server ρ) (conn : Connection ρ) (f : Handled ρ) : Prop :=
  ∃ depth, handle srv f.now depth conn f.raw = some f.out

/-- The connection goes on as long as there are replies. -/
def step (srv : Server ρ) (conn : Connection ρ) (f : Handled ρ) (conn' : Connection ρ) : Prop :=
  Handles srv conn f ∧ f.out.reply.isSome ∧ f.out.conn = conn'

/-- A session setup that proved who sent it. -/
def Authenticates (srv : Server ρ) (f : Handled ρ) : Prop :=
  ∃ request, f.out.executed = some request ∧ le16 request.msg 12 = smb2SessionSetup ∧
    (establishedKey srv f.now request.msg).isSome

variable {frames : List (Handled ρ)} {f : Handled ρ} {m : List UInt8}

/-- A frame keeps the keys, or it proved who sent it. -/
theorem keys_of_handles (h : Handles srv conn f) :
    f.out.conn.keys = conn.keys ∨ Authenticates srv f := by
  obtain ⟨depth, hhandle⟩ := h
  obtain hkept | ⟨request, hexecuted, hsetup, hkeys⟩ := keys_handle hhandle
  · exact .inl hkept
  · cases hkey : establishedKey srv f.now request.msg with
    | none =>
      rw [hkey] at hkeys
      exact .inl (hkeys.trans (Prod.mk.inj protection_hashRequest).1)
    | some key => exact .inr ⟨request, hexecuted, hsetup, by rw [hkey]; rfl⟩

theorem keys_of_run {start : Connection ρ} (run : Run (step srv) start frames conn) :
    conn.keys = start.keys ∨ ∃ f ∈ frames, Authenticates srv f := by
  induction run with
  | nil => exact .inl rfl
  | @cons s t u f fs hstep _ ih =>
    obtain ⟨hhandles, -, rfl⟩ := hstep
    obtain hlater | ⟨g, hg, hauth⟩ := ih
    · exact (keys_of_handles hhandles).imp hlater.trans fun hauth => ⟨f, by simp, hauth⟩
    · exact .inr ⟨g, List.mem_cons_of_mem _ hg, hauth⟩

/-- How the message of a frame is treated by a connection that has got its frames so far. `Signed`
and `Sealed` are what the holders of a key have signed and encrypted with it. -/
structure Admission (srv : Server ρ) (Signed : List UInt8 → List UInt8 → Prop)
    (Sealed : List UInt8 → List UInt8 → List UInt8 → Prop) (frames : List (Handled ρ))
    (conn : Connection ρ) (m : List UInt8) (executed : Option Request) : Prop where
  /-- Without a signing key there is no check. -/
  unprotected : conn.signingKey = none → hasHeader m → executed = some ⟨m, false⟩
  /-- With one, a request that says it is signed is executed if the signature is right. -/
  signed : ∀ key, conn.signingKey = some key → hasHeader m → Primitives.isSigned m →
    exempt m false = false →
      (executed = some ⟨m, false⟩ ↔ srv.crypto.verifyMessage key m) ∧
      (executed.isSome → Signed key m)
  /-- An encrypted message is executed exactly if it opens under the key in force and holds a
  request. -/
  encrypted : isTransform m → ∀ request, executed = some request ↔
    request.encrypted = true ∧ hasHeader request.msg ∧
      ∃ key, conn.decKey = some key ∧ srv.crypto.decrypt conn.cipher key m = some request.msg
  /-- Then it was encrypted with the key. -/
  genuine : isTransform m → ∀ request, executed = some request →
    ∃ key, conn.decKey = some key ∧ Sealed key m request.msg
  /-- Nothing else is executed. -/
  other : hasHeader m = false → isTransform m = false → executed = none
  /-- A key is in force only after a session setup that proved who sent it. -/
  authenticated : conn.signingKey.isSome ∨ conn.decKey.isSome → ∃ f ∈ frames, Authenticates srv f

/-- How the message of a frame is treated after any run of frames on the connection. -/
theorem admission_of_run {Signed : List UInt8 → List UInt8 → Prop}
    {Sealed : List UInt8 → List UInt8 → List UInt8 → Prop}
    (hmac : ∀ key msg, srv.crypto.verifyMessage key msg → Signed key msg)
    (haead : ∀ cipher key raw text, srv.crypto.decrypt cipher key raw = some text →
      Sealed key raw text)
    (run : Run (step srv) (.new ρ) frames conn) (hf : Handles srv conn f) (hm : Wraps f.raw m) :
    Admission srv Signed Sealed frames conn m f.out.executed := by
  obtain ⟨depth, hhandle⟩ := hf
  rw [(hm.handle hhandle).executed]
  have hclear (hheader : hasHeader m) : (handleMessage srv f.now conn m).executed =
      if !refused srv conn m false then some ⟨m, false⟩ else none := by
    rw [handleMessage, not_isTransform hheader, if_neg Bool.false_ne_true,
      executed_handlePlainInner, hheader, Bool.true_and]
  have hencrypted (htransform : isTransform m) (request : Request) :
      (handleMessage srv f.now conn m).executed = some request ↔
        request.encrypted = true ∧ hasHeader request.msg ∧ ∃ key, conn.decKey = some key ∧
          srv.crypto.decrypt conn.cipher key m = some request.msg := by
    rw [handleMessage, if_pos htransform, executed_handleEncrypted]
    simp only [Option.bind_eq_some_iff, Option.ite_none_right_eq_some, Option.some.injEq]
    constructor
    · rintro ⟨text, ⟨key, hkey, hopen⟩, hheader, rfl⟩
      exact ⟨rfl, hheader, key, hkey, hopen⟩
    · rintro ⟨hflag, hheader, key, hkey, hopen⟩
      exact ⟨request.msg, ⟨key, hkey, hopen⟩, hheader, by rw [← hflag]⟩
  constructor
  · intro hkey hheader
    rw [hclear hheader, refused, hkey]
    rfl
  · intro key hkey hheader hsigned hexempt
    have hrefused : refused srv conn m false = !srv.crypto.verifyMessage key m := by
      simp [refused, hkey, hsigned, hexempt]
    rw [hclear hheader, hrefused, Bool.not_not]
    cases hverify : srv.crypto.verifyMessage key m with
    | false => simp
    | true => simpa using hmac key m hverify
  · exact hencrypted
  · intro htransform request hexecuted
    obtain ⟨-, -, key, hkey, hdecrypt⟩ := (hencrypted htransform request).mp hexecuted
    exact ⟨key, hkey, haead _ _ _ _ hdecrypt⟩
  · intro hheader htransform
    rw [handleMessage, htransform, if_neg Bool.false_ne_true, executed_handlePlainInner, hheader,
      Bool.false_and, if_neg Bool.false_ne_true]
  · intro hkeys
    refine (keys_of_run run).resolve_left fun hstart => ?_
    obtain ⟨hsigning, hrest⟩ := Prod.mk.inj hstart
    obtain ⟨-, hdec⟩ := Prod.mk.inj hrest
    rw [hsigning, hdec] at hkeys
    simp [Connection.new] at hkeys

end Runs

/-! ## A connection to try out -/

section Sample

/-- Asks for the first bytes of a file. -/
def sampleRead : List UInt8 :=
  sampleRequest smb2Read 0
    (leBytes 2 49 ++ [0, 0] ++ leBytes 4 9 ++ leBytes 8 0 ++ encodeFileId 1)

/-- A new connection reads a file: no session was set up, and the reply brings the contents. -/
theorem read_without_session :
    (handle sampleServer sampleMoment 1 (.new Unit) sampleRead).map
        (fun out => (out.executed, out.reply.map (·.drop 80))) =
      some (some ⟨sampleRead, false⟩, some (Text.asciiBytes "Version=1")) := by
  decide +kernel

/-- What the server makes of a frame that is not compressed. -/
def sampleHandled (conn : Connection Unit) (raw : List UInt8) : Handled Unit :=
  ⟨sampleMoment, raw, (handle sampleServer sampleMoment 1 conn raw).getD (dropped conn 0)⟩

theorem handles_sampleHandled (raw : List UInt8) {conn : Connection Unit}
    (h : isCompressed raw = false) : Handles sampleServer conn (sampleHandled conn raw) := by
  refine ⟨1, ?_⟩
  have hsome : (handle sampleServer sampleMoment 1 conn raw).isSome := by
    simp only [handle, h, Bool.false_eq_true, if_false]
    split_ifs <;> rfl
  exact (Option.some_get hsome).symm.trans (congrArg some (Option.get_eq_getD ..))

/-- Offers version 3.0, with or without encryption. -/
def sampleNegotiate (caps : ℕ) : List UInt8 :=
  sampleRequest smb2Negotiate 0 (leBytes 2 36 ++ leBytes 2 1 ++ leBytes 4 0 ++ leBytes 4 caps ++
    List.replicate 24 0 ++ leBytes 2 dialect30)

/-- The last message of an NTLM exchange. -/
def sampleSetup (key : List UInt8) : List UInt8 :=
  let blob := ntlmsspMarker ++ leBytes 4 3 ++ key
  sampleRequest smb2SessionSetup 0
    (leBytes 2 25 ++ List.replicate 10 0 ++ leBytes 2 80 ++ leBytes 2 blob.length ++ blob)

def sampleKey : List UInt8 := Text.asciiBytes "0123456789abcdef"

/-- A connection with a session whose requests are signed. -/
def sampleSession : Connection Unit :=
  (sampleHandled (sampleHandled (.new Unit) (sampleNegotiate 0)).out.conn
    (sampleSetup sampleKey)).out.conn

def sampleSigned : List UInt8 :=
  samplePrimitives.signMessage sampleKey (sampleRequest smb2Logoff 0 [])

/-- The rules apply to a signed request in a session. -/
theorem admission_sample : sampleSession.signingKey = some sampleKey ∧
    Admission sampleServer (fun key msg => samplePrimitives.verifyMessage key msg)
      (fun key raw text => ∃ cipher, samplePrimitives.decrypt cipher key raw = some text)
      [sampleHandled (.new Unit) (sampleNegotiate 0),
        sampleHandled (sampleHandled (.new Unit) (sampleNegotiate 0)).out.conn
          (sampleSetup sampleKey)]
      sampleSession sampleSigned (sampleHandled sampleSession sampleSigned).out.executed :=
  ⟨by decide +kernel, admission_of_run (fun _ _ h => h) (fun cipher _ _ _ h => ⟨cipher, h⟩)
    (.cons ⟨handles_sampleHandled _ (by decide +kernel), by decide +kernel, rfl⟩
      (.cons ⟨handles_sampleHandled _ (by decide +kernel), by decide +kernel, rfl⟩ (.nil _)))
    (handles_sampleHandled _ (by decide +kernel)) (.plain (by decide +kernel))⟩

end Sample

end Magnetite.Smb.Connection
