import Magnetite.Smb.Server
import Mathlib.Tactic.Ring

/-!
# How deep and how large the handling of a frame gets

A compressed message is handled as what it decompresses to, which may be compressed again. So a
frame is handled within a number of nested calls exactly if it is not compressed that many times
over, and then the sizes of all messages that are built have a common bound.
-/
namespace Magnetite.Smb

open Magnetite.Lib Magnetite.Lib.Ndr

/-! ## Sizes of replies -/

section Sizes

theorem length_slice {bytes field : List UInt8} {off len : ℕ} (h : slice bytes off len = some field) :
    field.length = len := by
  unfold slice at h
  split at h
  · rw [← Option.some.inj h, List.length_take, List.length_drop]
    omega
  · cases h

@[simp] theorem length_fileIdAt (data : List UInt8) (off : ℕ) : (fileIdAt data off).length = 16 := by
  unfold fileIdAt
  cases h : slice data off 16 with
  | none => rfl
  | some field => exact length_slice h

@[simp] theorem length_fileTimes : fileTimes.length = 32 := by
  simp [fileTimes]

theorem length_buildMessage (command messageId credits : ℕ) (r : Reply) :
    (buildMessage command messageId credits r).length = headerLen + r.body.length := by
  simp only [buildMessage, List.length_append, length_leBytes, List.length_replicate, headerLen]
  rfl

theorem length_negotiateResponse (dialect : ℕ) (encrypt : Bool) (cipher : Cipher) (kerberos : Bool) :
    (negotiateResponse dialect encrypt cipher kerberos).length ≤ 512 := by
  have hcontexts : (negotiateContexts cipher).2.length = 82 := by cases cipher <;> rfl
  have hplain : negTokenInit.length = 30 := rfl
  have hkerberos : negTokenInitKerberos.length = 52 := rfl
  have hguid : serverGuid.length = 16 := rfl
  by_cases hdialect : dialect = dialect311 <;> cases kerberos <;>
    simp [negotiateResponse, hdialect, hcontexts, hplain, hkerberos, hguid, padding]

theorem length_sessionSetupResponse (token : List UInt8) (sessionFlags : ℕ) :
    (sessionSetupResponse token sessionFlags).length = token.length + 8 := by
  simp only [sessionSetupResponse, List.length_append, length_leBytes]
  omega

theorem length_ioctlResponse (ctlCode : ℕ) (fileId output : List UInt8) :
    (ioctlResponse ctlCode fileId output).length = 32 + fileId.length + output.length := by
  simp only [ioctlResponse, List.length_append, length_leBytes]
  omega

theorem length_openedResponse (size attrs : ℕ) (fid : List UInt8) :
    (openedResponse size attrs fid).length = 72 + fid.length := by
  simp only [openedResponse, List.length_append, length_leBytes, length_fileTimes,
    List.length_cons, List.length_nil]
  omega

theorem length_readBody (chunk : List UInt8) : (readBody chunk).length = 16 + chunk.length := by
  simp only [readBody, List.length_append, length_leBytes, List.length_cons, List.length_nil]

theorem length_queryResponse (output : List UInt8) :
    (queryResponse output).length = 8 + output.length := by
  simp only [queryResponse, List.length_append, length_leBytes]

theorem length_fileInformation (infoClass size attrs : ℕ) (isDir : Bool) (name : String) :
    (fileInformation infoClass size attrs isDir name).length ≤ 100 + (utf16le name).length := by
  simp only [fileInformation, fileBasicInformation, fileStandardInformation]
  split_ifs <;> simp <;> omega

theorem length_filesystemInformation (infoClass : ℕ) :
    (filesystemInformation infoClass).length ≤ 32 := by
  unfold filesystemInformation
  split_ifs <;> simp

theorem length_directoryEntry (v : Vfs) (infoClass child : ℕ) (node : Node) (last : Bool) :
    (directoryEntry v infoClass child node last).length ≤ 112 + (utf16le node.name).length := by
  have hpad (n : ℕ) : padding 8 n < 8 := Nat.mod_lt _ (by decide)
  have := hpad ((if infoClass = fileFullDirInfo then 68
    else if infoClass = fileIdBothDirInfo then 104 else 94) + (utf16le node.name).length)
  simp only [directoryEntry, List.length_append, length_leBytes, length_fileTimes,
    List.length_replicate, apply_ite List.length, List.length_nil, List.length_cons]
  split_ifs at * <;> omega

end Sizes

namespace Connection

variable {ρ : Type} {srv : Server ρ} {now : Moment ρ} {conn : Connection ρ} {limit : ℕ}
  {raw msg : List UInt8}

/-- Whatever the server has to hand out is within the limit: the contents and names of files,
listings, the answers of pipes and of Kerberos. -/
structure Serves (now : Moment ρ) (limit : ℕ) (conn : Connection ρ) : Prop where
  content : ∀ tree idx content,
    ((now.vfsFor tree).node idx).map Node.kind = some (.file content) → content.length ≤ limit
  listing : ∀ tree idx children infoClass,
    ((now.vfsFor tree).node idx).map Node.kind = some (.dir children) →
      (queryDirectoryResponse (now.vfsFor tree) children infoClass).length ≤ limit
  name : ∀ idx node, now.sysvol.node idx = some node → (utf16le node.name).length ≤ limit
  buffered : ∀ fid pipe, conn.openPipes fid = some pipe → pipe.response.length ≤ limit
  answer : ∀ rpc input response, (now.transact rpc input).2 = some response →
    response.length ≤ limit
  apRep : ∀ v apRep key, now.buildApRep v = some (apRep, key) → apRep.length ≤ limit

section Handlers

theorem Serves.answer_getD (h : Serves now limit conn) (rpc : ρ) (input : List UInt8) :
    ((now.transact rpc input).2.getD []).length ≤ limit := by
  cases hanswer : (now.transact rpc input).2 with
  | none => exact Nat.zero_le _
  | some response => exact h.answer rpc input response hanswer

theorem length_sessionSetup (h : Serves now limit conn) (msg : List UInt8) :
    (sessionSetup srv now conn msg).1.body.length ≤ limit + 512 := by
  have hchallenge : negTokenRespChallenge.length = 203 := by decide +kernel
  have hcompleted : negTokenRespAcceptCompleted.length = 9 := rfl
  have hntlm (blob : List UInt8) :
      (ntlmAuthenticate srv now conn blob).1.body.length ≤ limit + 512 := by
    unfold ntlmAuthenticate
    dsimp only
    split_ifs
    · rw [length_sessionSetupResponse, List.length_nil]
      omega
    · rw [length_sessionSetupResponse, hcompleted]
      omega
    · split <;> rw [length_sessionSetupResponse] <;> simp only [hcompleted, List.length_nil] <;>
        omega
  have hkerberos (v : VerifiedApReq) :
      (kerberosAuthenticate srv now conn v).1.body.length ≤ limit + 512 := by
    unfold kerberosAuthenticate
    split
    · rw [length_sessionSetupResponse, List.length_nil]
      omega
    · rename_i apRep fullKey hbuild
      have := length_negTokenRespApRep apRep
      have := h.apRep v apRep fullKey hbuild
      rw [length_sessionSetupResponse]
      omega
  unfold sessionSetup
  dsimp only
  split
  · split_ifs
    · rw [length_sessionSetupResponse, hchallenge]
      omega
    · exact hntlm _
  · split
    · split
      · exact hkerberos _
      · rw [length_sessionSetupResponse, List.length_nil]
        omega
    · rw [length_sessionSetupResponse, List.length_nil]
      omega

theorem length_create (msg : List UInt8) (session tree : ℕ) :
    (create srv now conn msg session tree).1.body.length ≤ 512 := by
  unfold create
  dsimp only
  split
  · simp [createPipeResponse, length_openedResponse, allocPipeId, Text.asciiBytes]
  · split
    · simp [createResponse, length_openedResponse, encodeFileId, vfsTag, Text.asciiBytes]
    · simp [errorResponse]

theorem length_read (h : Serves now limit conn) (data : List UInt8) (session tree : ℕ) :
    (read now conn data session tree).1.body.length ≤ limit + 512 := by
  have herror : errorResponse.length = 9 := rfl
  unfold read
  dsimp only
  split
  · rename_i pipe hpipe
    have := h.buffered _ pipe hpipe
    split_ifs
    · rw [herror]
      omega
    · simp only [length_readBody, List.length_take, List.length_drop]
      omega
  · unfold readFile
    dsimp only
    split
    · rename_i content hnode
      obtain ⟨idx, -, hfile⟩ := Option.bind_eq_some_iff.mp hnode
      have := h.content tree idx content hfile
      split_ifs
      · rw [herror]
        omega
      · simp only [length_readBody, List.length_take, List.length_drop]
        omega
    · rw [herror]
      omega

theorem length_write (msg : List UInt8) (session tree : ℕ) :
    (write now conn msg session tree).1.body.length ≤ 512 := by
  unfold write
  dsimp only
  split
  · simp [errorResponse]
  · simp [writeResponse]

theorem length_ioctl (h : Serves now limit conn) (data : List UInt8) (session tree : ℕ) :
    (ioctl now conn data session tree).1.body.length ≤ limit + 512 := by
  have hguid : serverGuid.length = 16 := rfl
  have hinterface : networkInterfaceInfo.length = 152 := rfl
  unfold ioctl
  dsimp only
  split_ifs
  · simp only [length_ioctlResponse, length_fileIdAt, hinterface]
    omega
  · simp only [length_ioctlResponse, length_fileIdAt, List.length_append, length_leBytes, hguid]
    omega
  · unfold pipeTransceive
    dsimp only
    split
    · simp only [length_ioctlResponse, length_fileIdAt, List.length_nil]
      omega
    · rename_i pipe hpipe
      have := h.answer_getD pipe.rpc ((slice data (le32 data 24 - headerLen) (le32 data 28)).getD [])
      simp only [length_ioctlResponse, length_fileIdAt]
      split_ifs
      · rw [List.length_take]
        omega
      · omega
  · simp only [errorResponse, List.length_append, length_leBytes, List.length_cons, List.length_nil]
    omega

theorem length_queryInfo (h : Serves now limit conn) (data : List UInt8) (session tree : ℕ) :
    (queryInfo now data session tree).body.length ≤ limit + 512 := by
  have hname : (utf16le ((((decodeFileId data 24).bind fun idx =>
      (now.sysvol.node idx).map (idx, ·)).map (·.2.name)).getD "")).length ≤ limit := by
    cases hfound : (decodeFileId data 24).bind fun idx => (now.sysvol.node idx).map (idx, ·) with
    | none => exact Nat.zero_le _
    | some found =>
      obtain ⟨idx, -, hnode⟩ := Option.bind_eq_some_iff.mp hfound
      obtain ⟨node, hget, rfl⟩ := Option.map_eq_some_iff.mp hnode
      exact h.name idx node hget
  simp only [queryInfo, length_queryResponse]
  split_ifs
  · refine (Nat.add_le_add_left (length_fileInformation ..) 8).trans ?_
    omega
  · have := length_filesystemInformation ((data[3]?.map UInt8.toNat).getD fileStandardInfo)
    omega
  · simp

theorem length_queryDirectory (h : Serves now limit conn) (data : List UInt8) (session tree : ℕ) :
    (queryDirectory now conn data session tree).1.body.length ≤ limit + 512 := by
  have herror : errorResponse.length = 9 := rfl
  unfold queryDirectory
  dsimp only
  split
  · rename_i children hnode
    obtain ⟨idx, -, hdir⟩ := Option.bind_eq_some_iff.mp hnode
    split_ifs
    · rw [herror]
      omega
    · exact (h.listing tree idx children _ hdir).trans (Nat.le_add_right ..)
  · rw [herror]
    omega

theorem length_treeConnect (msg : List UInt8) (session : ℕ) :
    (treeConnect conn msg session).1.body.length = 16 := by
  unfold treeConnect
  dsimp only
  split_ifs <;> simp [treeConnectResponse]

/-- No handler answers with more than what is served and the fixed fields. -/
theorem length_dispatch (h : Serves now limit conn) (msg : List UInt8) :
    (dispatch srv now conn msg).1.body.length ≤ limit + 512 := by
  have hwiden {n : ℕ} (hn : n ≤ 512) : n ≤ limit + 512 := hn.trans (Nat.le_add_left ..)
  refine dispatch_induction srv now (motive := fun r => r.1.body.length ≤ limit + 512) _ _ _ rfl rfl
    rfl ?_ ?_ ?_ ?_ ?_ ?_ ?_ ?_ ?_ ?_ ?_ ?_
  · exact fun _ => hwiden (length_negotiateResponse ..)
  · exact fun _ => length_sessionSetup h msg
  · rw [length_treeConnect]
    omega
  · exact hwiden (length_create ..)
  · exact length_read h ..
  · exact hwiden (length_write ..)
  · exact length_ioctl h ..
  · exact length_queryInfo h ..
  · exact length_queryDirectory h ..
  · exact hwiden (by simp [close, closeResponse])
  · exact hwiden (by simp [smallResponse])
  · exact hwiden (by simp [errorResponse])

end Handlers

/-! ## Sizes of what a frame makes -/

section Frames

variable {out : Outcome ρ} {n : ℕ}

def Outcome.replySize (out : Outcome ρ) : ℕ := (out.reply.map List.length).getD 0

/-- The reply and all messages that were built take no more than the given size. -/
def Outcome.Within (out : Outcome ρ) (n : ℕ) : Prop := out.built + out.replySize ≤ n

theorem Serves.hashRequest (h : Serves now limit conn) (msg : List UInt8) :
    Serves now limit (hashRequest srv conn msg) := by
  have hpipes : (Connection.hashRequest srv conn msg).openPipes = conn.openPipes := by
    unfold Connection.hashRequest
    dsimp only
    split_ifs <;> rfl
  exact { h with buffered := by rw [hpipes]; exact h.buffered }

theorem length_signReply (conn : Connection ρ) (command : ℕ) (out : List UInt8) :
    (signReply srv conn command out).length = out.length := by
  unfold signReply
  split_ifs
  · rfl
  · cases conn.signingKey with
    | none => rfl
    | some key => exact srv.crypto.length_signMessage key out

theorem length_stripSignature (response : List UInt8) :
    (stripSignature response).length = response.length := by
  unfold stripSignature
  split_ifs with hlong
  · rw [headerLen] at hlong
    have hflags (k : ℕ) : (overwrite 16 (leBytes 4 k) response).length = response.length :=
      length_overwrite (by rw [length_leBytes]; omega)
    rw [Primitives.unsigned, length_overwrite (by rw [List.length_replicate, hflags]; omega), hflags]
  · rfl

theorem handlePlainInner_built (srv : Server ρ) (h : Serves now limit conn) (msg : List UInt8)
    (fromEncrypted : Bool) :
    (handlePlainInner srv now conn msg fromEncrypted).built ≤ limit + 576 ∧
      (handlePlainInner srv now conn msg fromEncrypted).replySize =
        (handlePlainInner srv now conn msg fromEncrypted).built := by
  have hreply {command messageId credits : ℕ} {r : Reply} (hr : r.body.length ≤ limit + 512) :
      (buildMessage command messageId credits r).length ≤ limit + 576 := by
    rw [length_buildMessage, headerLen]
    omega
  unfold handlePlainInner
  dsimp only
  split_ifs
  · exact ⟨hreply ((length_negotiateResponse _ _ conn.cipher _).trans (Nat.le_add_left ..)), rfl⟩
  · exact ⟨Nat.zero_le _, rfl⟩
  · refine ⟨hreply ?_, rfl⟩
    simp only [errorResponse, List.length_append, length_leBytes, List.length_cons, List.length_nil]
    omega
  · refine ⟨?_, rfl⟩
    simp only [execute, length_signReply]
    exact hreply (length_dispatch (h.hashRequest msg) msg)

theorem handleEncrypted_within (h : Serves now limit conn)
    (hraw : raw.length ≤ Comp.maxDecompressed) :
    (handleEncrypted srv now conn raw).Within (5 * (Comp.maxDecompressed + limit)) := by
  have hmax : Comp.maxDecompressed = 2 ^ 24 := rfl
  unfold handleEncrypted
  split
  · exact Nat.zero_le _
  · rename_i decKey _
    split
    · exact Nat.zero_le _
    · rename_i plaintext hopen
      have hlength := srv.crypto.length_decrypt hopen
      have ⟨hbuilt, hsize⟩ := handlePlainInner_built srv h plaintext true
      unfold reencrypted
      split
      · rename_i response encKey hreply _
        rw [Outcome.replySize, hreply] at hsize
        simp only [Option.map_some, Option.getD_some] at hsize
        simp only [Outcome.Within, Outcome.replySize, Option.map_some, Option.getD_some,
          Primitives.length_encrypt, length_stripSignature, Primitives.transformHeaderLen]
        omega
      · simp only [Outcome.Within, Outcome.replySize, Option.map_none, Option.getD_none]
        omega

end Frames

/-! ## Nested compression -/

/-- The message is compressed at least that many times over. -/
def Compressed : ℕ → List UInt8 → Prop
  | 0, _ => True
  | n + 1, raw => ∃ inner, Comp.decompressMessage raw = some inner ∧ Compressed n inner

section Nesting

/-- The calls end within a depth exactly if the message is not compressed that often. -/
theorem handle_isSome (srv : Server ρ) (now : Moment ρ) (depth : ℕ) (conn : Connection ρ)
    (raw : List UInt8) :
    (handle srv now depth conn raw).isSome ↔ ¬ Compressed depth raw := by
  induction depth generalizing raw with
  | zero => simp [handle, Compressed]
  | succ depth ih =>
    unfold handle
    split_ifs with hcompressed htransform
    · split
      · rename_i hfail
        simp [Compressed, hfail]
      · rename_i inner hinner
        simp [Compressed, hinner, ih inner]
    all_goals
      have hnone : Comp.decompressMessage raw = none :=
        Option.eq_none_iff_forall_ne_some.mpr fun inner h =>
          hcompressed (isCompressed_of_decompress h)
      simp [Compressed, hnone]

theorem Outcome.Within.recompressed {out : Outcome ρ} {n : ℕ} (h : out.Within n)
    (hn : 5 * Comp.maxDecompressed ≤ n) {decompressed : List UInt8}
    (hsize : decompressed.length ≤ Comp.maxDecompressed) :
    (recompressed decompressed out).Within (5 * n) := by
  have hmax : Comp.maxDecompressed = 2 ^ 24 := rfl
  unfold Outcome.Within Outcome.replySize Connection.recompressed at *
  split
  · rename_i hreply
    rw [hreply] at *
    simp only [Option.map_none, Option.getD_none] at *
    omega
  · rename_i response hreply
    have := Comp.length_compressMessage response
    rw [hreply] at h
    simp only [Option.map_some, Option.getD_some] at *
    omega

theorem handle_within (h : Serves now limit conn) (hraw : raw.length ≤ Comp.maxDecompressed)
    {depth : ℕ} {out : Outcome ρ} (hout : handle srv now depth conn raw = some out) :
    out.Within (5 ^ depth * (Comp.maxDecompressed + limit)) := by
  have hmax : Comp.maxDecompressed = 2 ^ 24 := rfl
  have hpow (d : ℕ) : 5 * (Comp.maxDecompressed + limit) ≤
      5 ^ (d + 1) * (Comp.maxDecompressed + limit) :=
    Nat.mul_le_mul_right _ (Nat.le_self_pow (Nat.succ_ne_zero d) 5)
  induction depth generalizing raw out with
  | zero => cases hout
  | succ depth ih =>
    unfold handle at hout
    split_ifs at hout with hcompressed htransform
    · split at hout
      · rw [← Option.some.inj hout]
        exact Nat.zero_le _
      · rename_i inner hinner
        obtain ⟨out', hout', rfl⟩ := Option.map_eq_some_iff.mp hout
        have hsize := Comp.length_decompressMessage hinner
        have hwithin := ih hsize hout'
        cases depth with
        | zero => cases hout'
        | succ d =>
          rw [pow_succ', Nat.mul_assoc]
          have hlarge := hpow d
          exact hwithin.recompressed (by omega) hsize
    · rw [← Option.some.inj hout]
      exact (handleEncrypted_within h hraw).trans (hpow depth)
    · have ⟨hbuilt, hsize⟩ := handlePlainInner_built srv h raw false
      have hlarge := hpow depth
      rw [← Option.some.inj hout, Outcome.Within, hsize]
      omega

/-- A frame is handled within a number of nested calls, and with messages of bounded size, exactly
if it is not compressed that many times over. -/
theorem handle_bounded_iff (srv : Server ρ) (h : Serves now limit conn)
    (hraw : raw.length ≤ Comp.maxDecompressed) (depth : ℕ) :
    (∃ out, handle srv now depth conn raw = some out ∧
        out.built ≤ 5 ^ depth * (Comp.maxDecompressed + limit)) ↔
      ¬ Compressed depth raw := by
  rw [← handle_isSome srv now depth conn raw, Option.isSome_iff_exists]
  constructor
  · rintro ⟨out, hout, -⟩
    exact ⟨out, hout⟩
  · rintro ⟨out, hout⟩
    exact ⟨out, hout, (Nat.le_add_right ..).trans (handle_within h hraw hout)⟩

/-- A message that decompresses to itself. -/
def quine : List UInt8 :=
  let header := Comp.compressionProtocolId ++ leBytes 4 64 ++
    leBytes 2 Comp.compressionAlgorithmLz77 ++
    [0x24, 0] ++ leBytes 4 10
  let flags := [8, 2, 0, 0]
  let tail := flags ++ (header.drop 10 ++ header.take 10) ++ flags ++ [0x24, 0] ++ [0x9f, 0, 8] ++
    [0x24, 0, 0x9f, 0, 8] ++ [0x24, 0] ++ [0, 0]
  header ++ header.take 10 ++ tail

theorem decompress_quine : Comp.decompressMessage quine = some quine := by decide +kernel

theorem compressed_quine (n : ℕ) : Compressed n quine := by
  induction n with
  | zero => trivial
  | succ n ih => exact ⟨quine, decompress_quine, ih⟩

theorem sampleServes : Serves sampleMoment 1024 (.new Unit) := by
  have hvfs (tree : ℕ) : sampleMoment.vfsFor tree = sampleVfs := ite_self _
  have hnode {idx : ℕ} {node : Node} (h : sampleVfs.node idx = some node) :
      node = ⟨"", .dir [1]⟩ ∨ node = ⟨"GPT.INI", .file (Text.asciiBytes "Version=1")⟩ := by
    have := List.mem_of_getElem? h
    simpa [sampleVfs] using this
  constructor
  · intro tree idx content h
    rw [hvfs] at h
    obtain ⟨node, hget, hkind⟩ := Option.map_eq_some_iff.mp h
    obtain rfl | rfl := hnode hget <;> cases hkind
    decide
  · intro tree idx children infoClass h
    rw [hvfs] at *
    obtain ⟨node, hget, hkind⟩ := Option.map_eq_some_iff.mp h
    obtain rfl | rfl := hnode hget <;> cases hkind
    have hname : (utf16le "GPT.INI").length = 14 := by decide +kernel
    have hentry := length_directoryEntry sampleVfs infoClass 1
      ⟨"GPT.INI", .file (Text.asciiBytes "Version=1")⟩ true
    rw [hname] at hentry
    have hlisting : queryDirectoryResponse sampleVfs [1] infoClass =
        queryResponse (directoryEntry sampleVfs infoClass 1
          ⟨"GPT.INI", .file (Text.asciiBytes "Version=1")⟩ true) := by
      simp [queryDirectoryResponse, sampleVfs, Vfs.node]
    rw [hlisting, length_queryResponse]
    omega
  · intro idx node h
    obtain rfl | rfl := hnode h <;> decide +kernel
  · intro fid pipe h
    cases h
  · intro rpc input response h
    cases h
  · intro v apRep key h
    cases h

def sampleCompressed : List UInt8 := Comp.compressMessage (sampleRequest smb2Logoff 0 [])

/-- A compressed request needs two calls. -/
theorem handle_bounded_request :
    Comp.decompressMessage sampleCompressed = some (sampleRequest smb2Logoff 0 []) ∧
    ∃ out, handle sampleServer sampleMoment 2 (.new Unit) sampleCompressed = some out ∧
      out.built ≤ 5 ^ 2 * (Comp.maxDecompressed + 1024) := by
  have hinner : Comp.decompressMessage sampleCompressed = some (sampleRequest smb2Logoff 0 []) := by
    decide +kernel
  have hnone : Comp.decompressMessage (sampleRequest smb2Logoff 0 []) = none := by decide +kernel
  refine ⟨hinner, (handle_bounded_iff sampleServer sampleServes (by decide +kernel) 2).mpr ?_⟩
  rintro ⟨_, h, _, h', -⟩
  rw [hinner] at h
  cases h
  rw [hnone] at h'
  cases h'

/-- No number of nested calls is enough for a frame of 64 bytes. -/
theorem handle_quine : quine.length = 64 ∧
    ¬ ∃ depth, (handle sampleServer sampleMoment depth (.new Unit) quine).isSome := by
  refine ⟨by decide +kernel, ?_⟩
  rintro ⟨depth, h⟩
  exact (handle_isSome sampleServer sampleMoment depth (.new Unit) quine).mp h
    (compressed_quine depth)

end Nesting

end Connection

end Magnetite.Smb
