import Magnetite.Smb.Depth
import Magnetite.Smb.Vfs

/-!
# Handles of files

A handle is the number of a node, and reads and queries look the number up in the trees as they
are then. The trees are exchanged while handles are open. Reads go to the tree of the share; the
sizes in the replies to creates and queries are those of SYSVOL.
-/
namespace Magnetite.Smb

open Magnetite.Lib Magnetite.Lib.Ndr

/-! ## Fields -/

section Fields

theorem slice_append (a field b : List UInt8) :
    slice (a ++ field ++ b) a.length field.length = some field := by
  rw [slice, if_pos (by simp), List.append_assoc, List.drop_left, List.take_left]

theorem le_append {size n : ℕ} {bytes : List UInt8} {off : ℕ} (a b : List UInt8)
    (hbytes : bytes = a ++ leBytes size n ++ b) (ha : a.length = off) (hn : n < 256 ^ size) :
    le size bytes off = n := by
  have h := slice_append a (leBytes size n) b
  rw [length_leBytes, ha] at h
  rw [le, hbytes, h, Option.map_some, Option.getD_some, ofLeBytes_leBytes, Nat.mod_eq_of_lt hn]

/-- The identifier at an offset is that of a node. -/
theorem decodeFileId_of_slice {data : List UInt8} {off idx : ℕ} (hidx : idx < 2 ^ 32)
    (h : slice data off 16 = some (encodeFileId idx)) : decodeFileId data off = some idx := by
  obtain ⟨a, b, hdata, ha⟩ : ∃ a b, data = a ++ encodeFileId idx ++ b ∧ a.length = off := by
    rw [slice] at h
    split at h
    · next hlen =>
      refine ⟨data.take off, data.drop (off + 16), ?_, by rw [List.length_take]; omega⟩
      rw [← Option.some.inj h, List.append_assoc, ← List.drop_drop, List.take_append_drop,
        List.take_append_drop]
    · cases h
  have hle : le32 data off = idx := le_append a (vfsTag ++ b)
    (by rw [hdata, encodeFileId]; simp only [List.append_assoc]) ha hidx
  rw [decodeFileId, h, Option.bind_eq_bind, Option.bind_some, hle, encodeFileId,
    List.drop_left' (length_leBytes 4 idx), if_pos rfl]

end Fields

/-! ## Runs -/

variable {ρ : Type}

/-- The trees and a connection. -/
structure Served (ρ : Type) where
  sysvol : Vfs
  netlogon : Vfs
  conn : Connection ρ

inductive Event (ρ : Type) where
  | setSysvol (tree : Vfs)
  | setNetlogon (tree : Vfs)
  | create (now : Moment ρ) (msg : List UInt8) (session tree : ℕ)
  | read (now : Moment ρ) (data : List UInt8) (session tree : ℕ)
  | queryInfo (now : Moment ρ) (data : List UInt8) (session tree : ℕ)

/-- The bytes of a file; a directory has none. -/
def Vfs.bytes (v : Vfs) (idx : ℕ) : List UInt8 :=
  match (v.node idx).map Node.kind with
  | some (.file content) => content
  | _ => []

theorem Vfs.length_bytes (v : Vfs) (idx : ℕ) : (v.bytes idx).length = v.size idx := by
  rw [Vfs.bytes, Vfs.size]
  rcases (v.node idx).map Node.kind with _ | ⟨content⟩ | ⟨children⟩ <;> rfl

namespace Served

/-- A moment at which these trees are served. -/
def moment (s : Served ρ) (now : Moment ρ) : Moment ρ :=
  { now with sysvol := s.sysvol, netlogon := s.netlogon }

def vfsFor (s : Served ρ) (tree : ℕ) : Vfs :=
  if tree = netlogonTreeId then s.netlogon else s.sysvol

variable (srv : Server ρ)

def step (s : Served ρ) : Event ρ → Served ρ
  | .setSysvol tree => { s with sysvol := tree }
  | .setNetlogon tree => { s with netlogon := tree }
  | .create now msg session tree =>
    { s with conn := (Connection.create srv (s.moment now) s.conn msg session tree).2 }
  | .read now data session tree =>
    { s with conn := (Connection.read (s.moment now) s.conn data session tree).2 }
  | .queryInfo _ _ _ _ => s

def run (s : Served ρ) (events : List (Event ρ)) : Served ρ := events.foldl (step srv) s

/-- The name that a create asks for. -/
def requestedName (msg : List UInt8) : String :=
  Connection.decodeUtf16
    ((slice msg (le16 (msg.drop headerLen) 44) (le16 (msg.drop headerLen) 46)).getD [])

/-- The name under which a pipe is looked for. -/
def pipeName (name : String) : String :=
  Text.toAsciiLowercase
    (.ofList ((name.toList.dropWhile (· = '\\')).reverse.dropWhile (· = '\\')).reverse)

/-- The node that a create opens: names of pipes come first. -/
def opens (s : Served ρ) (msg : List UInt8) (tree : ℕ) : Option ℕ :=
  if (srv.pipe (pipeName (requestedName msg))).isSome then none
  else (s.vfsFor tree).lookup (requestedName msg)

/-- Identifiers that a connection gives to pipes. -/
def OnlyPipes (conn : Connection ρ) : Prop :=
  ∀ fid, conn.openPipes fid ≠ none →
    ∃ n, fid = Text.asciiBytes "PIPE" ++ leBytes 4 n ++ Text.asciiBytes "MAGNPIPE"

variable {srv} {s : Served ρ}

theorem onlyPipes_step (h : OnlyPipes s.conn) (e : Event ρ) : OnlyPipes (s.step srv e).conn := by
  cases e with
  | setSysvol tree => exact h
  | setNetlogon tree => exact h
  | queryInfo now data session tree => exact h
  | create now msg session tree =>
    intro fid hfid
    simp only [step, Connection.create] at hfid
    split at hfid
    · by_cases heq : fid = s.conn.allocPipeId
      · exact ⟨s.conn.nextPipe, heq⟩
      · exact h fid (by simpa [Function.update_of_ne heq] using hfid)
    · split at hfid <;> exact h fid hfid
  | read now data session tree =>
    intro fid hfid
    simp only [step, Connection.read] at hfid
    split at hfid
    · next pipe hpipe =>
      split at hfid
      · exact h fid hfid
      · by_cases heq : fid = fileIdAt data 16
        · exact h fid (by rw [heq, hpipe]; exact Option.some_ne_none pipe)
        · exact h fid (by simpa [Function.update_of_ne heq] using hfid)
    · exact h fid hfid

theorem onlyPipes_run (h : OnlyPipes s.conn) (events : List (Event ρ)) :
    OnlyPipes (s.run srv events).conn := by
  induction events generalizing s with
  | nil => exact h
  | cons e events ih => exact ih (onlyPipes_step h e)

/-- The identifier of a node is never that of a pipe. -/
theorem OnlyPipes.not_file {conn : Connection ρ} (h : OnlyPipes conn) (idx : ℕ) :
    conn.openPipes (encodeFileId idx) = none := by
  by_contra hsome
  obtain ⟨n, hn⟩ := h _ hsome
  have htail := congrArg (List.drop 8) hn
  rw [encodeFileId, List.drop_append, List.drop_append, length_leBytes] at htail
  have hfile : (leBytes 4 idx).drop 8 = [] := List.drop_eq_nil_of_le (by simp)
  have hpipe : (Text.asciiBytes "PIPE" ++ leBytes 4 n).drop 8 = [] :=
    List.drop_eq_nil_of_le (by rw [List.length_append, length_leBytes]; rfl)
  have hlength : (Text.asciiBytes "PIPE" ++ leBytes 4 n).length = 8 := by
    rw [List.length_append, length_leBytes]
    rfl
  rw [hfile, hpipe, hlength] at htail
  exact absurd htail (by decide)

/-! ### Reads -/

/-- A read of the node, as the request has it. -/
structure AsksRead (data : List UInt8) (length offset idx : ℕ) : Prop where
  length : le32 data 4 = length
  offset : le64 data 8 = offset
  handle : slice data 16 16 = some (encodeFileId idx)

theorem read_handle {data : List UInt8} {length offset idx : ℕ} (hpipes : OnlyPipes s.conn)
    (hidx : idx < 2 ^ 32) (h : AsksRead data length offset idx) (now : Moment ρ)
    (session tree : ℕ) :
    Connection.read (s.moment now) s.conn data session tree =
      (if ((s.vfsFor tree).bytes idx).length ≤ offset then
          ⟨statusEndOfFile, session, tree, errorResponse⟩
        else ⟨statusSuccess, session, tree,
          readBody ((((s.vfsFor tree).bytes idx).drop offset).take length)⟩, s.conn) := by
  rw [Connection.read, fileIdAt, h.handle, Option.getD_some, hpipes.not_file]
  dsimp only
  rw [Connection.readFile, decodeFileId_of_slice hidx h.handle, h.length, h.offset,
    Option.bind_some, show (s.moment now).vfsFor tree = s.vfsFor tree from rfl, Vfs.bytes]
  rcases ((s.vfsFor tree).node idx).map Node.kind with _ | ⟨content⟩ | ⟨children⟩
  · simp
  · rfl
  · simp

theorem drop_readBody (chunk : List UInt8) : (readBody chunk).drop 16 = chunk := by
  rw [readBody]
  exact List.drop_left' (by simp)

/-- The bytes of one read after the other, each from where the one before ended, until a read
does not succeed. -/
def readToEnd (s : Served ρ) (now : Moment ρ) (request : ℕ → List UInt8) (session tree : ℕ) :
    ℕ → ℕ → List UInt8
  | 0, _ => []
  | fuel + 1, offset =>
    let reply := (Connection.read (s.moment now) s.conn (request offset) session tree).1
    if reply.status = statusSuccess then
      reply.body.drop 16 ++
        readToEnd s now request session tree fuel (offset + (reply.body.drop 16).length)
    else []

theorem readToEnd_eq {request : ℕ → List UInt8} {chunk idx : ℕ} (hpipes : OnlyPipes s.conn)
    (hidx : idx < 2 ^ 32) (hchunk : 0 < chunk) (now : Moment ρ) (session tree : ℕ)
    (hsize : ((s.vfsFor tree).bytes idx).length < 2 ^ 64)
    (h : ∀ offset < 2 ^ 64, AsksRead (request offset) chunk offset idx) (fuel offset : ℕ)
    (hoffset : offset ≤ ((s.vfsFor tree).bytes idx).length)
    (hfuel : ((s.vfsFor tree).bytes idx).length - offset < fuel) :
    s.readToEnd now request session tree fuel offset = ((s.vfsFor tree).bytes idx).drop offset := by
  induction fuel generalizing offset with
  | zero => omega
  | succ fuel ih =>
    rw [readToEnd, read_handle hpipes hidx (h offset (by omega))]
    by_cases hend : ((s.vfsFor tree).bytes idx).length ≤ offset
    · rw [if_pos hend, List.drop_eq_nil_of_le hend]
      exact if_neg (show statusEndOfFile ≠ statusSuccess by decide)
    · rw [if_neg hend]
      simp only [if_true, drop_readBody, List.length_take, List.length_drop]
      rw [ih _ (by omega) (by omega), ← List.drop_drop, ← List.length_drop, List.take_eq_take_min,
        List.take_append_drop]

/-! ### Sizes -/

/-- The end of the file in the reply to a create. -/
def createdSize (body : List UInt8) : ℕ := le64 body 48

theorem createdSize_openedResponse {size : ℕ} (hsize : size < 2 ^ 64) (attrs : ℕ)
    (fid : List UInt8) : createdSize (openedResponse size attrs fid) = size := by
  rw [createdSize, le64]
  refine le_append (leBytes 2 89 ++ [0, 0] ++ leBytes 4 1 ++ fileTimes ++ leBytes 8 size)
    (leBytes 4 attrs ++ leBytes 4 0 ++ fid ++ leBytes 4 0 ++ leBytes 4 0) ?_ (by simp) hsize
  simp only [openedResponse, List.append_assoc]

/-- The end of the file in the answer to a query, for the classes that have one. -/
def queriedSize (infoClass : ℕ) (body : List UInt8) : Option ℕ :=
  if infoClass = fileBasicInfo then none
  else if infoClass = fileNetworkOpenInfo then some (le64 body 48)
  else if infoClass = fileAllInfo then some (le64 body 56)
  else some (le64 body 16)

theorem queriedSize_fileInformation {size : ℕ} (hsize : size < 2 ^ 64) (infoClass attrs : ℕ)
    (isDir : Bool) (name : String) :
    queriedSize infoClass (queryResponse (fileInformation infoClass size attrs isDir name)) =
      if infoClass = fileBasicInfo then none else some size := by
  rw [queriedSize]
  generalize hinfo : fileInformation infoClass size attrs isDir name = info
  rw [fileInformation] at hinfo
  have found (a : List UInt8) (off : ℕ) (ha : 8 + a.length = off)
      (hab : a ++ leBytes 8 size <+: info) : le64 (queryResponse info) off = size := by
    obtain ⟨b, hab⟩ := hab
    refine le_append (leBytes 2 9 ++ leBytes 2 (headerLen + 8) ++ leBytes 4 info.length ++ a) b ?_
      (by simp only [List.length_append, length_leBytes]; omega) hsize
    rw [queryResponse, List.append_assoc _ a, List.append_assoc _ (a ++ _), hab]
  split_ifs at hinfo ⊢ with hbasic hnetwork hall
  · rfl
  · refine congrArg some (found (fileTimes ++ leBytes 8 size) 48 (by simp) ?_)
    rw [← hinfo, List.append_assoc _ (leBytes 4 attrs)]
    exact List.prefix_append _ _
  · refine congrArg some (found (fileBasicInformation attrs ++ leBytes 8 size) 56
      (by simp [fileBasicInformation]) ?_)
    rw [← hinfo, fileStandardInformation]
    simp only [List.append_assoc, List.prefix_append_right_inj]
    exact List.prefix_append _ _
  · refine congrArg some (found (leBytes 8 size) 16 (by simp) ?_)
    rw [← hinfo, fileStandardInformation]
    simp only [List.append_assoc, List.prefix_append_right_inj]
    exact List.prefix_append _ _

structure AsksInfo (data : List UInt8) (infoClass idx : ℕ) : Prop where
  infoType : (data[2]?.map UInt8.toNat).getD 1 = infoTypeFile
  infoClass : (data[3]?.map UInt8.toNat).getD fileStandardInfo = infoClass
  handle : slice data 24 16 = some (encodeFileId idx)

/-- The size of the node in the tree of the share is that of the node of SYSVOL with the number. -/
def SizeOfSysvol (s : Served ρ) (tree idx : ℕ) : Prop :=
  tree ≠ netlogonTreeId ∨ s.sysvol.size idx = s.netlogon.size idx

theorem SizeOfSysvol.size_eq {tree idx : ℕ} (h : s.SizeOfSysvol tree idx) :
    s.sysvol.size idx = (s.vfsFor tree).size idx := by
  rw [vfsFor]
  split
  · next heq => exact h.resolve_left fun hne => hne heq
  · rfl

theorem queryInfo_handle {data : List UInt8} {infoClass idx : ℕ} (hidx : idx < 2 ^ 32)
    (h : AsksInfo data infoClass idx) (now : Moment ρ) (session tree : ℕ)
    (hsize : s.sysvol.size idx < 2 ^ 64) :
    queriedSize infoClass (Connection.queryInfo (s.moment now) data session tree).body =
      if infoClass = fileBasicInfo then none else some (s.sysvol.size idx) := by
  rw [Connection.queryInfo, decodeFileId_of_slice hidx h.handle, h.infoType, h.infoClass]
  dsimp only
  rw [if_pos rfl, Option.bind_some]
  have hfound : (((s.sysvol.node idx).map (idx, ·)).map fun f => s.sysvol.size f.1).getD 0 =
      s.sysvol.size idx := by
    cases hnode : s.sysvol.node idx with
    | none => rw [Vfs.size, hnode]; rfl
    | some node => rfl
  rw [show (s.moment now).sysvol = s.sysvol from rfl, hfound]
  exact queriedSize_fileInformation hsize ..

theorem create_reply {msg : List UInt8} {tree idx : ℕ} (h : s.opens srv msg tree = some idx)
    (now : Moment ρ) (session : ℕ) :
    Connection.create srv (s.moment now) s.conn msg session tree =
      (⟨statusSuccess, session, tree, Connection.createResponse (s.moment now) idx⟩, s.conn) := by
  rw [opens] at h
  split at h
  · cases h
  · next hpipe =>
    have hnone : srv.pipe (pipeName (requestedName msg)) = none := by simpa using hpipe
    rw [requestedName] at h hnone
    rw [pipeName] at hnone
    rw [Connection.create]
    dsimp only
    rw [hnone]
    dsimp only
    rw [show (s.moment now).vfsFor tree = s.vfsFor tree from rfl, h]

/-- The bytes of the file with the name, as they are now. -/
def file (s : Served ρ) (tree : ℕ) (name : String) : List UInt8 :=
  (((s.vfsFor tree).lookup name).map (s.vfsFor tree).bytes).getD []

theorem file_eq {tree idx : ℕ} {name : String} (h : (s.vfsFor tree).lookup name = some idx) :
    s.file tree name = (s.vfsFor tree).bytes idx := by
  rw [file, h, Option.map_some, Option.getD_some]

/-- A handle of a create, after any events, as long as the path is still at its number. Reads return
the file as it is then. The size of the create is the number of bytes read to the end if the length
of the file is still the same, and the size of a query always is; both if SYSVOL has that size at
the number. -/
theorem handles_stable (srv : Server ρ) (start : Served ρ) (hpipes : OnlyPipes start.conn)
    (before after : List (Event ρ)) (now : Moment ρ) (msg : List UInt8) (session tree idx : ℕ)
    (s s' : Served ρ) (hs : s = start.run srv before)
    (hs' : s' = (s.step srv (.create now msg session tree)).run srv after)
    (hopens : s.opens srv msg tree = some idx) (hidx : idx < 2 ^ 32)
    (hsize : (s.file tree (requestedName msg)).length < 2 ^ 64)
    (hsize' : (s'.file tree (requestedName msg)).length < 2 ^ 64)
    (hstill : (s'.vfsFor tree).lookup (requestedName msg) = some idx) :
    (∀ now data session length offset, AsksRead data length offset idx →
      (Connection.read (s'.moment now) s'.conn data session tree).1 =
        if (s'.file tree (requestedName msg)).length ≤ offset then
          ⟨statusEndOfFile, session, tree, errorResponse⟩
        else ⟨statusSuccess, session, tree,
          readBody (((s'.file tree (requestedName msg)).drop offset).take length)⟩) ∧
    (∀ now request session chunk fuel, 0 < chunk →
      (∀ offset < 2 ^ 64, AsksRead (request offset) chunk offset idx) →
      (s'.file tree (requestedName msg)).length < fuel →
      let bytes := s'.readToEnd now request session tree fuel 0
      bytes = s'.file tree (requestedName msg) ∧
      (s.SizeOfSysvol tree idx → ∀ now session,
        (createdSize (Connection.create srv (s.moment now) s.conn msg session tree).1.body =
            bytes.length ↔
          (s'.file tree (requestedName msg)).length = (s.file tree (requestedName msg)).length)) ∧
      (s'.SizeOfSysvol tree idx → ∀ now data session infoClass, AsksInfo data infoClass idx →
        queriedSize infoClass (Connection.queryInfo (s'.moment now) data session tree).body =
          if infoClass = fileBasicInfo then none else some bytes.length)) := by
  have hpipes' : OnlyPipes s'.conn := by
    rw [hs', hs]
    exact onlyPipes_run (onlyPipes_step (onlyPipes_run hpipes before) _) after
  have hfound : (s.vfsFor tree).lookup (requestedName msg) = some idx := by
    rw [opens] at hopens
    split at hopens
    · cases hopens
    · exact hopens
  rw [file_eq hfound] at hsize ⊢
  rw [file_eq hstill] at hsize' ⊢
  refine ⟨fun now data session length offset h => by rw [read_handle hpipes' hidx h],
    fun now request session chunk fuel hchunk h hfuel => ?_⟩
  dsimp only
  rw [readToEnd_eq hpipes' hidx hchunk now session tree hsize' h fuel 0 (Nat.zero_le _)
    (by rwa [Nat.sub_zero]), List.drop_zero]
  refine ⟨rfl, fun hsys now session => ?_, fun hsys now data session infoClass h => ?_⟩
  · have hcreated : createdSize
        (Connection.create srv (s.moment now) s.conn msg session tree).1.body =
          ((s.vfsFor tree).bytes idx).length := by
      rw [create_reply hopens, Vfs.length_bytes, ← hsys.size_eq]
      rw [Vfs.length_bytes, ← hsys.size_eq] at hsize
      exact createdSize_openedResponse hsize ..
    rw [hcreated, eq_comm]
  · rw [Vfs.length_bytes, ← hsys.size_eq] at hsize' ⊢
    exact queryInfo_handle hidx h now session tree hsize'

/-! ### Samples -/

namespace Sample

/-- Two files in SYSVOL and one in NETLOGON. -/
def served : Served Unit where
  sysvol := Vfs.fromFiles Vfs.Sample.ascii [("a", [1]), ("b", [2, 3])]
  netlogon := Vfs.fromFiles Vfs.Sample.ascii [("logon.cmd", [7, 7, 7])]
  conn := .new Unit

/-- The same files of SYSVOL in another order. -/
def reordered : Vfs := Vfs.fromFiles Vfs.Sample.ascii [("b", [2, 3]), ("a", [1])]

def createRequest (name : String) : List UInt8 :=
  sampleRequest 5 0 (List.replicate 44 0 ++ leBytes 2 112 ++ leBytes 2 (utf16le name).length ++
    utf16le name)

def readRequest (idx offset : ℕ) : List UInt8 :=
  leBytes 4 0 ++ leBytes 4 8 ++ leBytes 8 offset ++ encodeFileId idx

def infoRequest (idx : ℕ) : List UInt8 :=
  [0, 0, 1, 5] ++ List.replicate 20 0 ++ encodeFileId idx

/-- Through the handle of `a` come the bytes of `b`, and the file of NETLOGON is reported with the
size of `a`. -/
theorem handle_of_another_file :
    served.opens sampleServer (createRequest "a") sysvolTreeId = some 1 ∧
    (served.run sampleServer [.create sampleMoment (createRequest "a") 0 sysvolTreeId,
      .setSysvol reordered]).readToEnd sampleMoment (readRequest 1) 0 sysvolTreeId 5 0 = [2, 3] ∧
    served.opens sampleServer (createRequest "logon.cmd") netlogonTreeId = some 1 ∧
    served.readToEnd sampleMoment (readRequest 1) 0 netlogonTreeId 5 0 = [7, 7, 7] ∧
    createdSize (Connection.create sampleServer (served.moment sampleMoment) served.conn
      (createRequest "logon.cmd") 0 netlogonTreeId).1.body = 1 ∧
    queriedSize fileStandardInfo (Connection.queryInfo (served.moment sampleMoment)
      (infoRequest 1) 0 netlogonTreeId).body = some 1 := by
  decide +kernel

theorem asksRead_readRequest {idx offset : ℕ} (h : offset < 2 ^ 64) :
    AsksRead (readRequest idx offset) 8 offset idx where
  length := le_append (leBytes 4 0) (leBytes 8 offset ++ encodeFileId idx)
    (by simp only [readRequest, List.append_assoc]) (by simp) (by decide)
  offset := le_append (leBytes 4 0 ++ leBytes 4 8) (encodeFileId idx)
    (by simp only [readRequest, List.append_assoc]) (by simp) h
  handle := by
    have hlength : (encodeFileId idx).length = 16 := by
      rw [encodeFileId, List.length_append, length_leBytes]
      rfl
    have hslice := slice_append (leBytes 4 0 ++ leBytes 4 8 ++ leBytes 8 offset) (encodeFileId idx) []
    rwa [List.append_nil, hlength, List.length_append, List.length_append, length_leBytes,
      length_leBytes, length_leBytes] at hslice

/-- Other contents of the same lengths, and a read. -/
def rewritten : List (Event Unit) :=
  [.setSysvol (Vfs.fromFiles Vfs.Sample.ascii [("a", [8]), ("b", [5, 6])]),
    .read sampleMoment (readRequest 2 0) 0 sysvolTreeId]

theorem handles_stable_policy :
    ∃ s' : Served Unit, s' = (served.step sampleServer
        (.create sampleMoment (createRequest "b") 0 sysvolTreeId)).run sampleServer rewritten ∧
      s'.readToEnd sampleMoment (readRequest 2) 0 sysvolTreeId 5 0 = [5, 6] ∧
      createdSize (Connection.create sampleServer (served.moment sampleMoment) served.conn
        (createRequest "b") 0 sysvolTreeId).1.body =
          (s'.readToEnd sampleMoment (readRequest 2) 0 sysvolTreeId 5 0).length := by
  refine ⟨_, rfl, ?_⟩
  obtain ⟨-, hend⟩ := handles_stable sampleServer served (fun _ h => absurd rfl h) [] rewritten
    sampleMoment (createRequest "b") 0 sysvolTreeId 2 served _ rfl rfl (by decide +kernel) (by decide)
    (by decide +kernel) (by decide +kernel) (by decide +kernel)
  obtain ⟨hbytes, hcreated, -⟩ := hend sampleMoment (readRequest 2) 0 8 5 (by decide)
    (fun _ h => asksRead_readRequest h) (by decide +kernel)
  exact ⟨hbytes.trans (by decide +kernel),
    (hcreated (.inl (by decide)) sampleMoment 0).mpr (by decide +kernel)⟩

end Sample

end Served

end Magnetite.Smb
