import Magnetite.Smb.Compression
import Magnetite.Smb.Protection
import Magnetite.Smb.Spnego

/-!
# The file server

What the server does with one frame of a connection. A frame is a message, or an encrypted or a
compressed one around it. The handlers pass the state of the connection along; besides the reply the
outcome tells which request was dispatched, which key and nonce the reply was encrypted with and how
many bytes were built. What lies outside the server comes in as parameters: the primitives, the
checks of NTLM and Kerberos messages, the interfaces behind the named pipes, the served trees.
-/
namespace Magnetite.Smb

open Magnetite.Lib Magnetite.Lib.Ndr

/-! ## Numbers of the protocol -/

section Numbers

def smb2Magic : List UInt8 := [0xfe, 0x53, 0x4d, 0x42]
def smb1Magic : List UInt8 := [0xff, 0x53, 0x4d, 0x42]
def smb1ComNegotiate : UInt8 := 0x72

def smb2Negotiate : ℕ := 0x00
def smb2SessionSetup : ℕ := 0x01
def smb2Logoff : ℕ := 0x02
def smb2TreeConnect : ℕ := 0x03
def smb2TreeDisconnect : ℕ := 0x04
def smb2Create : ℕ := 0x05
def smb2Close : ℕ := 0x06
def smb2Read : ℕ := 0x08
def smb2Write : ℕ := 0x09
def smb2Ioctl : ℕ := 0x0b
def smb2QueryDirectory : ℕ := 0x0e
def smb2QueryInfo : ℕ := 0x10

def statusSuccess : ℕ := 0x00000000
def statusNoMoreFiles : ℕ := 0x80000006
def statusBufferOverflow : ℕ := 0x80000005
def statusMoreProcessingRequired : ℕ := 0xc0000016
def statusEndOfFile : ℕ := 0xc0000011
def statusObjectNameNotFound : ℕ := 0xc0000034
def statusLogonFailure : ℕ := 0xc000006d
def statusNotSupported : ℕ := 0xc00000bb
def statusAccessDenied : ℕ := 0xc0000022

def dialectWildcard : ℕ := 0x02ff
def dialect21 : ℕ := 0x0210
def dialect30 : ℕ := 0x0300
def dialect311 : ℕ := 0x0311

def preauthIntegrityCapabilities : ℕ := 1
def encryptionCapabilities : ℕ := 2
def compressionCapabilities : ℕ := 3
def hashSha512 : ℕ := 1
def preauthSalt : List UInt8 := Text.asciiBytes "magnetite-smb311-preauth-salt-01"

def signingEnabled : ℕ := 1
def signingRequired : ℕ := 2
def globalCapEncryption : ℕ := 0x40
def sessionFlagEncryptData : ℕ := 4

def fsctlQueryNetworkInterfaceInfo : ℕ := 0x001401fc
def fsctlValidateNegotiateInfo : ℕ := 0x00140204
def fsctlPipeTransceive : ℕ := 0x0011c017
def networkInterfaceRssCapable : ℕ := 1

def fileAttributeDirectory : ℕ := 0x10
def fileAttributeNormal : ℕ := 0x80

def fileFullDirInfo : ℕ := 0x02
def fileBothDirInfo : ℕ := 0x03
def fileIdBothDirInfo : ℕ := 0x25

def infoTypeFile : ℕ := 1
def infoTypeFilesystem : ℕ := 2
def fileBasicInfo : ℕ := 0x04
def fileStandardInfo : ℕ := 0x05
def fileAllInfo : ℕ := 0x12
def fileNetworkOpenInfo : ℕ := 0x22
def fsFullSizeInfo : ℕ := 0x07

def theSessionId : ℕ := 0x1234
def sysvolTreeId : ℕ := 1
def ipcTreeId : ℕ := 2
def netlogonTreeId : ℕ := 3
def shareTypeDisk : UInt8 := 1
def shareTypePipe : UInt8 := 2
def serverGuid : List UInt8 := Text.asciiBytes "magnetite-smbsrv"
def systemTime : ℕ := 133800000000000000

end Numbers

/-! ## Replies -/

section Replies

structure Reply where
  status : ℕ
  sessionId : ℕ
  treeId : ℕ
  body : List UInt8

def buildMessage (command messageId credits : ℕ) (r : Reply) : List UInt8 :=
  smb2Magic ++ leBytes 2 headerLen ++ leBytes 2 0 ++ leBytes 4 r.status ++ leBytes 2 command ++
    leBytes 2 credits ++ leBytes 4 1 ++ leBytes 4 0 ++ leBytes 8 messageId ++ leBytes 4 0 ++
    leBytes 4 r.treeId ++ leBytes 8 r.sessionId ++ List.replicate 16 0 ++ r.body

def pushContext (contextType : ℕ) (data : List UInt8) : List UInt8 :=
  leBytes 2 contextType ++ leBytes 2 data.length ++ leBytes 4 0 ++ data

/-- Padded to a multiple of 8 bytes. -/
def align8 (bytes : List UInt8) : List UInt8 :=
  bytes ++ List.replicate (padding 8 bytes.length) 0

/-- How many contexts there are, and the contexts. -/
def negotiateContexts (cipher : Cipher) : ℕ × List UInt8 :=
  let preauth := leBytes 2 1 ++ leBytes 2 preauthSalt.length ++ leBytes 2 hashSha512 ++ preauthSalt
  let c := align8 (pushContext preauthIntegrityCapabilities preauth)
  let encryption := leBytes 2 1 ++ leBytes 2 cipher.algorithmId
  let c := align8 (c ++ pushContext encryptionCapabilities encryption)
  let compression := leBytes 2 1 ++ leBytes 2 0 ++ leBytes 4 0 ++
    leBytes 2 Comp.compressionAlgorithmLz77
  (3, c ++ pushContext compressionCapabilities compression)

/-- The security mode that a server announces: signing is required in version 3.0 without
encryption. -/
def securityMode (dialect : ℕ) (encrypt : Bool) : ℕ :=
  if dialect = dialect30 ∧ !encrypt then signingEnabled ||| signingRequired else signingEnabled

def capabilities (encrypt : Bool) : ℕ := if encrypt then globalCapEncryption else 0

def negotiateResponse (dialect : ℕ) (encrypt : Bool) (cipher : Cipher) (kerberos : Bool) :
    List UInt8 :=
  let token := if kerberos then negTokenInitKerberos else negTokenInit
  let pad := padding 8 (64 + token.length)
  let (count, offset, contexts) :=
    if dialect = dialect311 then
      let (count, ctx) := negotiateContexts cipher
      (count, headerLen + (64 + token.length + pad), List.replicate pad 0 ++ ctx)
    else (0, 0, [])
  leBytes 2 65 ++ leBytes 2 (securityMode dialect encrypt) ++ leBytes 2 dialect ++
    leBytes 2 count ++ serverGuid ++ leBytes 4 (capabilities encrypt) ++ leBytes 4 0x100000 ++
    leBytes 4 0x100000 ++ leBytes 4 0x100000 ++ leBytes 8 systemTime ++ leBytes 8 0 ++
    leBytes 2 (headerLen + 64) ++ leBytes 2 token.length ++ leBytes 4 offset ++ token ++ contexts

def sessionSetupResponse (token : List UInt8) (sessionFlags : ℕ) : List UInt8 :=
  leBytes 2 9 ++ leBytes 2 sessionFlags ++ leBytes 2 (headerLen + 8) ++
    leBytes 2 token.length ++ token

def treeConnectResponse (shareType : UInt8) : List UInt8 :=
  leBytes 2 16 ++ [shareType, 0] ++ leBytes 4 0 ++ leBytes 4 0 ++ leBytes 4 0x001f01ff

/-- The four times of a file. -/
def fileTimes : List UInt8 := (List.replicate 4 (leBytes 8 systemTime)).flatten

/-- The answer to an opened file. -/
def openedResponse (size attrs : ℕ) (fid : List UInt8) : List UInt8 :=
  leBytes 2 89 ++ [0, 0] ++ leBytes 4 1 ++ fileTimes ++ leBytes 8 size ++ leBytes 8 size ++
    leBytes 4 attrs ++ leBytes 4 0 ++ fid ++ leBytes 4 0 ++ leBytes 4 0

def createPipeResponse (fid : List UInt8) : List UInt8 := openedResponse 0 fileAttributeNormal fid

def writeResponse (count : ℕ) : List UInt8 :=
  leBytes 2 17 ++ leBytes 2 0 ++ leBytes 4 count ++ leBytes 4 0 ++ leBytes 2 0 ++ leBytes 2 0

def networkInterfaceInfo : List UInt8 :=
  leBytes 4 0 ++ leBytes 4 1 ++ leBytes 4 networkInterfaceRssCapable ++ leBytes 4 0 ++
    leBytes 8 10000000000 ++ leBytes 2 2 ++ leBytes 2 0 ++ [127, 0, 0, 1] ++ List.replicate 120 0

def ioctlResponse (ctlCode : ℕ) (fileId output : List UInt8) : List UInt8 :=
  leBytes 2 49 ++ leBytes 2 0 ++ leBytes 4 ctlCode ++ fileId ++ leBytes 4 0 ++ leBytes 4 0 ++
    leBytes 4 (headerLen + 48) ++ leBytes 4 output.length ++ leBytes 4 0 ++ leBytes 4 0 ++ output

def readBody (chunk : List UInt8) : List UInt8 :=
  leBytes 2 17 ++ [UInt8.ofNat (headerLen + 16), 0] ++ leBytes 4 chunk.length ++ leBytes 4 0 ++
    leBytes 4 0 ++ chunk

def closeResponse : List UInt8 :=
  leBytes 2 60 ++ leBytes 2 0 ++ leBytes 4 0 ++ fileTimes ++ leBytes 8 0 ++ leBytes 8 0 ++
    leBytes 4 fileAttributeNormal

def smallResponse (structureSize : ℕ) : List UInt8 := leBytes 2 structureSize ++ leBytes 2 0

def errorResponse : List UInt8 := leBytes 2 9 ++ [0, 0] ++ leBytes 4 0 ++ [0]

/-- The output of a query behind its fixed fields. -/
def queryResponse (output : List UInt8) : List UInt8 :=
  leBytes 2 9 ++ leBytes 2 (headerLen + 8) ++ leBytes 4 output.length ++ output

end Replies

/-! ## Served trees -/

section Trees

inductive Kind where
  | file (content : List UInt8)
  | dir (children : List ℕ)

structure Node where
  name : String
  kind : Kind

/-- A tree; how paths are normalised and looked up is left open. -/
structure Vfs where
  nodes : List Node
  lookup : String → Option ℕ

namespace Vfs

def node (v : Vfs) (index : ℕ) : Option Node := v.nodes[index]?

def size (v : Vfs) (index : ℕ) : ℕ :=
  match (v.node index).map Node.kind with
  | some (.file content) => content.length
  | _ => 0

def isDir (v : Vfs) (index : ℕ) : Bool :=
  match (v.node index).map Node.kind with
  | some (.dir _) => true
  | _ => false

end Vfs

def attributesOf (isDir : Bool) : ℕ := if isDir then fileAttributeDirectory else fileAttributeNormal

/-- What marks the identifiers of tree nodes. -/
def vfsTag : List UInt8 := Text.asciiBytes "MAGNETSMBID1"

def encodeFileId (index : ℕ) : List UInt8 := leBytes 4 index ++ vfsTag

def decodeFileId (data : List UInt8) (off : ℕ) : Option ℕ := do
  let id ← slice data off 16
  if id.drop 4 = vfsTag then some (le32 data off) else none

/-- A file identifier of a request, zeros if it is cut off. -/
def fileIdAt (data : List UInt8) (off : ℕ) : List UInt8 :=
  (slice data off 16).getD (List.replicate 16 0)

def fileBasicInformation (attrs : ℕ) : List UInt8 := fileTimes ++ leBytes 4 attrs ++ leBytes 4 0

def fileStandardInformation (size : ℕ) (isDir : Bool) : List UInt8 :=
  leBytes 8 size ++ leBytes 8 size ++ leBytes 4 1 ++ [0, if isDir then 1 else 0] ++ leBytes 2 0

/-- A number made from the bytes of a name. -/
def idxIndex (name : String) : UInt64 :=
  name.toUTF8.toList.foldl (fun h b => (h ^^^ b.toUInt64) * 1099511628211) 1469598103934665603

def fileInformation (infoClass size attrs : ℕ) (isDir : Bool) (name : String) : List UInt8 :=
  if infoClass = fileBasicInfo then fileBasicInformation attrs
  else if infoClass = fileNetworkOpenInfo then
    fileTimes ++ leBytes 8 size ++ leBytes 8 size ++ leBytes 4 attrs ++ leBytes 4 0
  else if infoClass = fileAllInfo then
    fileBasicInformation attrs ++ fileStandardInformation size isDir ++
      leBytes 8 (idxIndex name).toNat ++ leBytes 4 0 ++ leBytes 4 0x001f01ff ++ leBytes 8 0 ++
      leBytes 4 0 ++ leBytes 4 1 ++ leBytes 4 (utf16le name).length ++ utf16le name
  else fileStandardInformation size isDir

def filesystemInformation (infoClass : ℕ) : List UInt8 :=
  if infoClass = fsFullSizeInfo then
    leBytes 8 1024 ++ leBytes 8 0 ++ leBytes 8 0 ++ leBytes 4 1 ++ leBytes 4 512
  else leBytes 8 1024 ++ leBytes 8 0 ++ leBytes 4 1 ++ leBytes 4 512

/-- One entry of a listing; `next` is 0 for the last. -/
def directoryEntry (v : Vfs) (infoClass child : ℕ) (node : Node) (last : Bool) : List UInt8 :=
  let header := if infoClass = fileFullDirInfo then 68
    else if infoClass = fileIdBothDirInfo then 104 else 94
  let name := utf16le node.name
  let unpadded := header + name.length
  let pad := padding 8 unpadded
  let isDir := match node.kind with | .dir _ => true | .file _ => false
  leBytes 4 (if last then 0 else unpadded + pad) ++ leBytes 4 0 ++ fileTimes ++
    leBytes 8 (v.size child) ++ leBytes 8 (v.size child) ++ leBytes 4 (attributesOf isDir) ++
    leBytes 4 name.length ++ leBytes 4 0 ++
    (if infoClass = fileFullDirInfo then []
      else [0, 0] ++ List.replicate 24 0 ++
        if infoClass = fileIdBothDirInfo then leBytes 2 0 ++ leBytes 8 child else []) ++
    name ++ List.replicate pad 0

def queryDirectoryResponse (v : Vfs) (children : List ℕ) (infoClass : ℕ) : List UInt8 :=
  queryResponse (children.zipIdx.flatMap fun (child, i) =>
    match v.node child with
    | none => []
    | some node => directoryEntry v infoClass child node (i + 1 = children.length))

end Trees

/-! ## The server around a connection -/

/-- What an accepted AP-REQ says. -/
structure VerifiedApReq where
  clientName : List String
  sessionKey : List UInt8
  ctime : ℕ
  cusec : ℕ

/-- The parts that stay as they are while the server runs. -/
structure Server (ρ : Type) where
  crypto : Primitives
  /-- The key of the service account, if Kerberos is accepted. -/
  serviceKey : Option (List UInt8)
  /-- Whether NTLM is checked against the directory. -/
  verifiesNtlm : Bool
  ntlmUsername : List UInt8 → Option String
  /-- The session key of an NTLM response that proves the password. -/
  ntlmEstablish : (ntHash message challenge : List UInt8) → Option (List UInt8)
  /-- A new instance of a registered pipe, for a key and a principal. -/
  pipe : String → Option (Option (List UInt8) → Option String → ρ)

/-- What the server finds when it handles a frame. -/
structure Moment (ρ : Type) where
  sysvol : Vfs
  netlogon : Vfs
  ntHash : String → Option (List UInt8)
  verifyApReq : (serviceKey apReq : List UInt8) → Option VerifiedApReq
  /-- An AP-REP with a fresh key, and the key. -/
  buildApRep : VerifiedApReq → Option (List UInt8 × List UInt8)
  /-- What the interface behind a pipe answers. -/
  transact : ρ → List UInt8 → ρ × Option (List UInt8)

structure PipeState (ρ : Type) where
  rpc : ρ
  response : List UInt8
  readPos : ℕ

structure Connection (ρ : Type) where
  sessionKey : Option (List UInt8)
  sessionUser : Option String
  dialect : ℕ
  signingKey : Option (List UInt8)
  encryptNegotiated : Bool
  encKey : Option (List UInt8)
  decKey : Option (List UInt8)
  applicationKey : Option (List UInt8)
  cipher : Cipher
  nonceCtr : ℕ
  preauthHash : List UInt8
  listedDirs : List (List UInt8)
  openPipes : List UInt8 → Option (PipeState ρ)
  nextPipe : ℕ

/-- A connection that has just been accepted. -/
def Connection.new (ρ : Type) : Connection ρ where
  sessionKey := none
  sessionUser := none
  dialect := 0
  signingKey := none
  encryptNegotiated := false
  encKey := none
  decKey := none
  applicationKey := none
  cipher := .ccm128
  nonceCtr := 0
  preauthHash := List.replicate 64 0
  listedDirs := []
  openPipes := fun _ => none
  nextPipe := 0

variable {ρ : Type}

def Moment.vfsFor (now : Moment ρ) (tree : ℕ) : Vfs :=
  if tree = netlogonTreeId then now.netlogon else now.sysvol

namespace Connection

/-! ### Negotiation -/

section Negotiation

/-- The ciphers that the contexts of a request offer, the strongest wins. -/
def strongest (best : Cipher) (msg : List UInt8) (body count : ℕ) : Cipher :=
  (List.range count).foldl (fun best i =>
    match (slice msg (body + 2 + i * 2) 2).bind fun id => Cipher.fromId (ofLeBytes id) with
    | some offered => if offered.preference < best.preference then offered else best
    | none => best) best

def scanContexts (msg : List UInt8) : ℕ → ℕ → Cipher → Cipher
  | 0, _, best => best
  | n + 1, pos, best =>
    match slice msg pos 2, slice msg (pos + 2) 2 with
    | some contextType, some dataLen =>
      let body := pos + 8
      let best := if ofLeBytes contextType = encryptionCapabilities
        then strongest best msg body (le16 msg body) else best
      let next := body + ofLeBytes dataLen
      scanContexts msg n (next + padding 8 next) best
    | _, _ => best

def clientCipher (msg : List UInt8) : Cipher :=
  let data := msg.drop headerLen
  scanContexts msg (le16 data 32) (le32 data 28) .ccm128

def offers (data : List UInt8) (want : ℕ) : Bool :=
  (List.range (le16 data 2)).any fun i => (slice data (36 + i * 2) 2).any (ofLeBytes · == want)

def negotiate (srv : Server ρ) (conn : Connection ρ) (msg : List UInt8) : Reply × Connection ρ :=
  let data := msg.drop headerLen
  let dialect := if offers data dialect311 then dialect311
    else if offers data dialect30 then dialect30 else dialect21
  let encryptNegotiated := if dialect = dialect311 then true
    else if dialect = dialect30 then le32 data 8 &&& globalCapEncryption ≠ 0 else false
  let cipher := if dialect = dialect311 then clientCipher msg else conn.cipher
  (⟨statusSuccess, 0, 0,
      negotiateResponse dialect encryptNegotiated cipher srv.serviceKey.isSome⟩,
    { conn with dialect, encryptNegotiated, cipher })

end Negotiation

/-! ### Session setup -/

section SessionSetup

variable (srv : Server ρ) (now : Moment ρ)

def signingKeyFor (conn : Connection ρ) (key16 : List UInt8) : List UInt8 :=
  if conn.dialect = dialect311 then srv.crypto.smb311SigningKey key16 conn.preauthHash
  else srv.crypto.smb3SigningKey key16

/-- The keys of the ciphers; those of 256 bits are made from the whole key. -/
def cipherKeysFor (conn : Connection ρ) (fullKey key16 : List UInt8) : List UInt8 × List UInt8 :=
  if conn.dialect = dialect311 then
    srv.crypto.encryptionKeys311 (if conn.cipher.keyLen = 32 then fullKey else key16)
      conn.preauthHash conn.cipher.keyLen
  else srv.crypto.encryptionKeys key16

/-- The signing key, and the cipher keys if encryption was negotiated. -/
def withProtection (conn : Connection ρ) (fullKey key16 : List UInt8) : Connection ρ :=
  let conn := if dialect30 ≤ conn.dialect
    then { conn with signingKey := some (signingKeyFor srv conn key16) } else conn
  if conn.encryptNegotiated then
    let keys := cipherKeysFor srv conn fullKey key16
    { conn with encKey := some keys.1, decKey := some keys.2 }
  else conn

/-- Also returns the session flags. -/
def deriveSessionKeys (conn : Connection ρ) (fullKey : List UInt8) : ℕ × Connection ρ :=
  if fullKey.length < 16 then (0, conn)
  else
    let key16 := fullKey.take 16
    let conn := withProtection srv conn fullKey key16
    let conn := if dialect30 ≤ conn.dialect then
        { conn with
          applicationKey := some (if conn.dialect = dialect311
            then srv.crypto.smb311ApplicationKey key16 conn.preauthHash
            else srv.crypto.smb3ApplicationKey key16) }
      else conn
    (if conn.encryptNegotiated then sessionFlagEncryptData else 0, conn)

def ntlmAuthenticate (conn : Connection ρ) (blob : List UInt8) : Reply × Connection ρ :=
  if !srv.verifiesNtlm then
    (⟨statusSuccess, theSessionId, 0, sessionSetupResponse [] 0⟩, conn)
  else
    let ntlm := (extractNtlmssp blob).getD blob
    let user := srv.ntlmUsername ntlm
    if user.getD "" = "" then
      -- an anonymous session
      (⟨statusSuccess, theSessionId, 0, sessionSetupResponse negTokenRespAcceptCompleted 0⟩, conn)
    else
      match (user.bind now.ntHash).bind (srv.ntlmEstablish · ntlm serverChallenge) with
      | none => (⟨statusLogonFailure, theSessionId, 0, sessionSetupResponse [] 0⟩, conn)
      | some sessionKey =>
        let derived := deriveSessionKeys srv conn sessionKey
        (⟨statusSuccess, theSessionId, 0,
            sessionSetupResponse negTokenRespAcceptCompleted derived.1⟩,
          { derived.2 with sessionKey := some sessionKey, sessionUser := user })

/-- Unlike after NTLM there is no application key. -/
def kerberosAuthenticate (conn : Connection ρ) (v : VerifiedApReq) : Reply × Connection ρ :=
  match now.buildApRep v with
  | none => (⟨statusLogonFailure, theSessionId, 0, sessionSetupResponse [] 0⟩, conn)
  | some (apRep, fullKey) =>
    let sessionKey := fullKey.take 16
    let conn := if sessionKey.length = 16 then withProtection srv conn fullKey sessionKey else conn
    let sessionFlags :=
      if sessionKey.length = 16 ∧ conn.encryptNegotiated then sessionFlagEncryptData else 0
    (⟨statusSuccess, theSessionId, 0,
        sessionSetupResponse (negTokenRespApRep apRep) sessionFlags⟩,
      { conn with
        sessionKey := some sessionKey
        sessionUser := some ("/".intercalate v.clientName) })

/-- The security blob of a session setup. -/
def securityBlob (msg : List UInt8) : List UInt8 :=
  let data := msg.drop headerLen
  (slice msg (le16 data 12) (le16 data 14)).getD []

def sessionSetup (conn : Connection ρ) (msg : List UInt8) : Reply × Connection ρ :=
  let blob := securityBlob msg
  match ntlmsspMessageType blob with
  | some msgType =>
    if msgType = 1 then
      (⟨statusMoreProcessingRequired, theSessionId, 0,
        sessionSetupResponse negTokenRespChallenge 0⟩, conn)
    else ntlmAuthenticate srv now conn blob
  | none =>
    match srv.serviceKey, extractApReq blob with
    | some key, some apReq =>
      match now.verifyApReq key apReq with
      | some v => kerberosAuthenticate srv now conn v
      | none => (⟨statusLogonFailure, theSessionId, 0, sessionSetupResponse [] 0⟩, conn)
    | _, _ =>
      -- no mechanism that is known: accepted
      (⟨statusSuccess, theSessionId, 0, sessionSetupResponse [] 0⟩, conn)

end SessionSetup

/-! ### Files and pipes -/

section Files

variable (srv : Server ρ) (now : Moment ρ)

/-- Whole units of two bytes. -/
def units : List UInt8 → List ℕ
  | a :: b :: rest => ofLeBytes [a, b] :: units rest
  | _ => []

/-- The path or file name that a request holds. -/
def decodeUtf16 (bytes : List UInt8) : String := Utf16.decode (units bytes)

def treeConnect (conn : Connection ρ) (msg : List UInt8) (session : ℕ) : Reply × Connection ρ :=
  let data := msg.drop headerLen
  let path := decodeUtf16 ((slice msg (le16 data 4) (le16 data 6)).getD [])
  let upper := Text.toAsciiUppercase path
  if Text.endsWith upper "IPC$" then
    (⟨statusSuccess, session, ipcTreeId, treeConnectResponse shareTypePipe⟩, conn)
  else if Text.endsWith upper "NETLOGON" then
    (⟨statusSuccess, session, netlogonTreeId, treeConnectResponse shareTypeDisk⟩, conn)
  else (⟨statusSuccess, session, sysvolTreeId, treeConnectResponse shareTypeDisk⟩, conn)

def allocPipeId (conn : Connection ρ) : List UInt8 :=
  Text.asciiBytes "PIPE" ++ leBytes 4 conn.nextPipe ++ Text.asciiBytes "MAGNPIPE"

/-- The size and the attributes are those of the node of SYSVOL with the number. -/
def createResponse (idx : ℕ) : List UInt8 :=
  openedResponse (now.sysvol.size idx) (attributesOf (now.sysvol.isDir idx)) (encodeFileId idx)

def create (conn : Connection ρ) (msg : List UInt8) (session tree : ℕ) : Reply × Connection ρ :=
  let data := msg.drop headerLen
  let name := decodeUtf16 ((slice msg (le16 data 44) (le16 data 46)).getD [])
  let trimmed := (name.toList.dropWhile (· = '\\')).reverse.dropWhile (· = '\\')
  let pipeName := Text.toAsciiLowercase (.ofList trimmed.reverse)
  match srv.pipe pipeName with
  | some make =>
    let fid := conn.allocPipeId
    let rpc := make (conn.applicationKey <|> conn.sessionKey) conn.sessionUser
    (⟨statusSuccess, session, tree, createPipeResponse fid⟩,
      { conn with
        openPipes := Function.update conn.openPipes fid (some ⟨rpc, [], 0⟩)
        nextPipe := conn.nextPipe + 1 })
  | none =>
    match (now.vfsFor tree).lookup name with
    | some idx => (⟨statusSuccess, session, tree, createResponse now idx⟩, conn)
    | none => (⟨statusObjectNameNotFound, session, tree, errorResponse⟩, conn)

def readFile (data : List UInt8) (session tree : ℕ) : Reply :=
  let length := le32 data 4
  let offset := le64 data 8
  match (decodeFileId data 16).bind fun idx => ((now.vfsFor tree).node idx).map Node.kind with
  | some (.file content) =>
    if content.length ≤ offset then ⟨statusEndOfFile, session, tree, errorResponse⟩
    else ⟨statusSuccess, session, tree, readBody ((content.drop offset).take length)⟩
  | _ => ⟨statusEndOfFile, session, tree, errorResponse⟩

def read (conn : Connection ρ) (data : List UInt8) (session tree : ℕ) : Reply × Connection ρ :=
  let fid := fileIdAt data 16
  match conn.openPipes fid with
  | some pipe =>
    let available := pipe.response.length - pipe.readPos
    if available = 0 then (⟨statusEndOfFile, session, tree, errorResponse⟩, conn)
    else
      let n := min (le32 data 4) available
      (⟨statusSuccess, session, tree, readBody ((pipe.response.drop pipe.readPos).take n)⟩,
        { conn with
          openPipes := Function.update conn.openPipes fid
            (some { pipe with readPos := pipe.readPos + n }) })
  | none => (readFile now data session tree, conn)

def write (conn : Connection ρ) (msg : List UInt8) (session tree : ℕ) : Reply × Connection ρ :=
  let data := msg.drop headerLen
  let length := le32 data 4
  let fid := fileIdAt data 16
  match conn.openPipes fid with
  | none => (⟨statusNotSupported, session, tree, errorResponse⟩, conn)
  | some pipe =>
    let answer := now.transact pipe.rpc ((slice msg (le16 data 2) length).getD [])
    (⟨statusSuccess, session, tree, writeResponse length⟩,
      { conn with
        openPipes := Function.update conn.openPipes fid (some ⟨answer.1, answer.2.getD [], 0⟩) })

/-- A request to a pipe and its answer at once. What does not fit into the answer is kept. -/
def pipeTransceive (conn : Connection ρ) (data : List UInt8) (session tree : ℕ) :
    Reply × Connection ρ :=
  let fid := fileIdAt data 8
  let maxOut := le32 data 44
  let input := (slice data (le32 data 24 - headerLen) (le32 data 28)).getD []
  match conn.openPipes fid with
  | none =>
    (⟨statusNotSupported, session, tree, ioctlResponse fsctlPipeTransceive fid []⟩, conn)
  | some pipe =>
    let answer := now.transact pipe.rpc input
    let full := answer.2.getD []
    let long := decide (0 < maxOut ∧ maxOut < full.length)
    let pipe := if long then ⟨answer.1, full, maxOut⟩ else { pipe with rpc := answer.1 }
    (⟨if long then statusBufferOverflow else statusSuccess, session, tree,
        ioctlResponse fsctlPipeTransceive fid (if long then full.take maxOut else full)⟩,
      { conn with openPipes := Function.update conn.openPipes fid (some pipe) })

def ioctl (conn : Connection ρ) (data : List UInt8) (session tree : ℕ) : Reply × Connection ρ :=
  let ctlCode := le32 data 4
  let fid := fileIdAt data 8
  if ctlCode = fsctlQueryNetworkInterfaceInfo then
    (⟨statusSuccess, session, tree, ioctlResponse ctlCode fid networkInterfaceInfo⟩, conn)
  else if ctlCode = fsctlValidateNegotiateInfo then
    let out := leBytes 4 (capabilities conn.encryptNegotiated) ++ serverGuid ++
      leBytes 2 (securityMode conn.dialect conn.encryptNegotiated) ++ leBytes 2 conn.dialect
    (⟨statusSuccess, session, tree, ioctlResponse ctlCode fid out⟩, conn)
  else if ctlCode = fsctlPipeTransceive then pipeTransceive now conn data session tree
  else (⟨statusNotSupported, session, tree, errorResponse⟩, conn)

def queryInfo (data : List UInt8) (session tree : ℕ) : Reply :=
  let infoType := (data[2]?.map UInt8.toNat).getD 1
  let infoClass := (data[3]?.map UInt8.toNat).getD fileStandardInfo
  let found := (decodeFileId data 24).bind fun idx => (now.sysvol.node idx).map (idx, ·)
  let size := (found.map fun f => now.sysvol.size f.1).getD 0
  let isDir := (found.map fun f => now.sysvol.isDir f.1).getD false
  let name := (found.map (·.2.name)).getD ""
  let info := if infoType = infoTypeFile then
      fileInformation infoClass size (attributesOf isDir) isDir name
    else if infoType = infoTypeFilesystem then filesystemInformation infoClass else []
  ⟨statusSuccess, session, tree, queryResponse info⟩

def queryDirectory (conn : Connection ρ) (data : List UInt8) (session tree : ℕ) :
    Reply × Connection ρ :=
  let fid := fileIdAt data 8
  let v := now.vfsFor tree
  match (decodeFileId data 8).bind fun idx => (v.node idx).map Node.kind with
  | some (.dir children) =>
    if fid ∈ conn.listedDirs then (⟨statusNoMoreFiles, session, tree, errorResponse⟩, conn)
    else
      let infoClass := (data[2]?.map UInt8.toNat).getD fileBothDirInfo
      (⟨statusSuccess, session, tree, queryDirectoryResponse v children infoClass⟩,
        { conn with listedDirs := fid :: conn.listedDirs })
  | _ => (⟨statusNoMoreFiles, session, tree, errorResponse⟩, conn)

def close (conn : Connection ρ) (data : List UInt8) (session tree : ℕ) : Reply × Connection ρ :=
  let conn := match slice data 8 16 with
    | some fid =>
      { conn with
        listedDirs := conn.listedDirs.filter (· ≠ fid)
        openPipes := Function.update conn.openPipes fid none }
    | none => conn
  (⟨statusSuccess, session, tree, closeResponse⟩, conn)

end Files

/-! ### Messages -/

section Messages

variable (srv : Server ρ) (now : Moment ρ)

/-- The handler of a command. -/
def dispatch (conn : Connection ρ) (msg : List UInt8) : Reply × Connection ρ :=
  let command := le16 msg 12
  let tree := le32 msg 36
  let session := le64 msg 40
  let data := msg.drop headerLen
  if command = smb2Negotiate then negotiate srv conn msg
  else if command = smb2SessionSetup then sessionSetup srv now conn msg
  else if command = smb2TreeConnect then treeConnect conn msg session
  else if command = smb2Create then create srv now conn msg session tree
  else if command = smb2Read then read now conn data session tree
  else if command = smb2Write then write now conn msg session tree
  else if command = smb2Ioctl then ioctl now conn data session tree
  else if command = smb2QueryInfo then (queryInfo now data session tree, conn)
  else if command = smb2QueryDirectory then queryDirectory now conn data session tree
  else if command = smb2Close then close conn data session tree
  else if command = smb2TreeDisconnect ∨ command = smb2Logoff then
    (⟨statusSuccess, session, tree, smallResponse 4⟩, conn)
  else (⟨statusNotSupported, session, tree, errorResponse⟩, conn)

/-- What holds of every handler holds of what is dispatched. -/
theorem dispatch_induction {motive : Reply × Connection ρ → Prop} {conn : Connection ρ}
    {msg : List UInt8} (session tree : ℕ) (data : List UInt8) (hsession : le64 msg 40 = session)
    (htree : le32 msg 36 = tree) (hdata : msg.drop headerLen = data)
    (negotiate : le16 msg 12 = smb2Negotiate → motive (negotiate srv conn msg))
    (sessionSetup : le16 msg 12 = smb2SessionSetup → motive (sessionSetup srv now conn msg))
    (treeConnect : motive (treeConnect conn msg session))
    (create : motive (create srv now conn msg session tree))
    (read : motive (read now conn data session tree))
    (write : motive (write now conn msg session tree))
    (ioctl : motive (ioctl now conn data session tree))
    (queryInfo : motive (queryInfo now data session tree, conn))
    (queryDirectory : motive (queryDirectory now conn data session tree))
    (close : motive (close conn data session tree))
    (small : motive (⟨statusSuccess, session, tree, smallResponse 4⟩, conn))
    (unknown : motive (⟨statusNotSupported, session, tree, errorResponse⟩, conn)) :
    motive (dispatch srv now conn msg) := by
  subst hsession htree hdata
  exact iteInduction negotiate fun _ => iteInduction sessionSetup fun _ =>
    iteInduction (fun _ => treeConnect) fun _ => iteInduction (fun _ => create) fun _ =>
    iteInduction (fun _ => read) fun _ => iteInduction (fun _ => write) fun _ =>
    iteInduction (fun _ => ioctl) fun _ => iteInduction (fun _ => queryInfo) fun _ =>
    iteInduction (fun _ => queryDirectory) fun _ => iteInduction (fun _ => close) fun _ =>
    iteInduction (fun _ => small) fun _ => unknown

/-- A request that is given to its handler. -/
structure Request where
  msg : List UInt8
  /-- Whether it came inside an encrypted message. -/
  encrypted : Bool
deriving DecidableEq

/-- What comes of a frame. Without a reply the connection ends. -/
structure Outcome (ρ : Type) where
  reply : Option (List UInt8)
  conn : Connection ρ
  /-- The request that was dispatched. -/
  executed : Option Request
  /-- Key and nonce of an encrypted reply. -/
  sealedUnder : Option (List UInt8 × List UInt8)
  /-- The size of all messages that were built. -/
  built : ℕ

/-- The connection ends. -/
def dropped (conn : Connection ρ) (built : ℕ) : Outcome ρ := ⟨none, conn, none, none, built⟩

def isSmb1Negotiate (msg : List UInt8) : Bool :=
  decide (5 ≤ msg.length) && msg.take 4 == smb1Magic && msg[4]? == some smb1ComNegotiate

/-- A message that is not looked at has no header. -/
def hasHeader (msg : List UInt8) : Bool :=
  decide (headerLen ≤ msg.length) && msg.take 4 == smb2Magic

/-- Requests that are not checked: those that come encrypted, and those that set up a session. -/
def exempt (msg : List UInt8) (fromEncrypted : Bool) : Bool :=
  fromEncrypted || le16 msg 12 = smb2Negotiate || le16 msg 12 = smb2SessionSetup

/-- Once there is a signing key, a request that says it is signed must be. -/
def refused (conn : Connection ρ) (msg : List UInt8) (fromEncrypted : Bool) : Bool :=
  conn.signingKey.any fun key =>
    Primitives.isSigned msg && !exempt msg fromEncrypted && !srv.crypto.verifyMessage key msg

/-- Negotiation and, in version 3.1.1, session setup go into the hash that keys are made with. -/
def hashRequest (conn : Connection ρ) (msg : List UInt8) : Connection ρ :=
  let command := le16 msg 12
  if command = smb2Negotiate ∨ command = smb2SessionSetup ∧ conn.dialect = dialect311 then
    { conn with preauthHash := srv.crypto.preauthUpdate conn.preauthHash msg }
  else conn

/-- And so do the answers, but for the last one. -/
def hashReply (conn : Connection ρ) (command status : ℕ) (out : List UInt8) : Connection ρ :=
  if conn.dialect = dialect311 ∧ (command = smb2Negotiate ∨
      command = smb2SessionSetup ∧ status = statusMoreProcessingRequired) then
    { conn with preauthHash := srv.crypto.preauthUpdate conn.preauthHash out }
  else conn

/-- Replies are signed once there is a key. -/
def signReply (conn : Connection ρ) (command : ℕ) (out : List UInt8) : List UInt8 :=
  if command = smb2Negotiate then out
  else conn.signingKey.elim out (srv.crypto.signMessage · out)

/-- A reply that no handler has made. -/
def answered (conn : Connection ρ) (out : List UInt8) : Outcome ρ :=
  ⟨some out, conn, none, none, out.length⟩

/-- The answer to an old client: it is to negotiate again. -/
def upgraded (conn : Connection ρ) : Outcome ρ :=
  answered conn (buildMessage smb2Negotiate 0 1 ⟨statusSuccess, 0, 0,
    negotiateResponse dialectWildcard false conn.cipher srv.serviceKey.isSome⟩)

def denied (conn : Connection ρ) (msg : List UInt8) : Outcome ρ :=
  answered conn (buildMessage (le16 msg 12) (le64 msg 24) (max (le16 msg 14) 1)
    ⟨statusAccessDenied, le64 msg 40, le32 msg 36, errorResponse⟩)

def execute (conn : Connection ρ) (msg : List UInt8) (fromEncrypted : Bool) : Outcome ρ :=
  let command := le16 msg 12
  let done := dispatch srv now conn msg
  let out := signReply srv done.2 command
    (buildMessage command (le64 msg 24) (max (le16 msg 14) 1) done.1)
  ⟨some out, hashReply srv done.2 command done.1.status out, some ⟨msg, fromEncrypted⟩, none,
    out.length⟩

def handlePlainInner (conn : Connection ρ) (msg : List UInt8) (fromEncrypted : Bool) : Outcome ρ :=
  if isSmb1Negotiate msg then upgraded srv conn
  else if !hasHeader msg then dropped conn 0
  else
    let conn := hashRequest srv conn msg
    if refused srv conn msg fromEncrypted then denied conn msg
    else execute srv now conn msg fromEncrypted

/-- An encrypted message is not signed as well. -/
def stripSignature (response : List UInt8) : List UInt8 :=
  if headerLen ≤ response.length then
    Primitives.unsigned (overwrite 16
      (leBytes 4 (le32 response 16 - (le32 response 16 &&& Primitives.flagsSigned))) response)
  else response

/-- The reply to an encrypted message is encrypted as well, with the next nonce. -/
def reencrypted (raw plaintext : List UInt8) (inner : Outcome ρ) : Outcome ρ :=
  match inner.reply, inner.conn.encKey with
  | some response, some encKey =>
    let conn := { inner.conn with nonceCtr := inner.conn.nonceCtr + 1 }
    let out := srv.crypto.encrypt conn.cipher encKey (Primitives.sessionIdOf raw) conn.nonceCtr
      (stripSignature response)
    { inner with
      reply := some out
      conn
      sealedUnder := some (encKey, Primitives.nonceOf conn.cipher conn.nonceCtr)
      built := plaintext.length + inner.built + out.length }
  | _, _ => { inner with reply := none, built := plaintext.length + inner.built }

def handleEncrypted (conn : Connection ρ) (raw : List UInt8) : Outcome ρ :=
  match conn.decKey with
  | none => dropped conn 0
  | some decKey =>
    match srv.crypto.decrypt conn.cipher decKey raw with
    | none => dropped conn 0
    | some plaintext => reencrypted srv raw plaintext (handlePlainInner srv now conn plaintext true)

def isCompressed (raw : List UInt8) : Bool := raw.take 4 == Comp.compressionProtocolId

theorem isCompressed_of_decompress {raw inner : List UInt8}
    (h : Comp.decompressMessage raw = some inner) : isCompressed raw := by
  unfold Comp.decompressMessage at h
  split at h
  · cases h
  · rename_i hheader
    rw [not_or, not_not] at hheader
    exact beq_iff_eq.mpr hheader.2

def isTransform (raw : List UInt8) : Bool := raw.take 4 == Primitives.transformProtocolId

/-- The reply to a compressed message is compressed as well. -/
def recompressed (decompressed : List UInt8) (inner : Outcome ρ) : Outcome ρ :=
  match inner.reply with
  | none => { inner with built := decompressed.length + inner.built }
  | some response =>
    let out := Comp.compressMessage response
    { inner with reply := some out, built := decompressed.length + inner.built + out.length }

/-- A compressed message is handled as what it decompresses to, one call deeper; `none` says that
the calls go deeper than the given number. -/
def handle : ℕ → Connection ρ → List UInt8 → Option (Outcome ρ)
  | 0, _, _ => none
  | depth + 1, conn, raw =>
    if isCompressed raw then
      match Comp.decompressMessage raw with
      | none => some (dropped conn 0)
      | some decompressed => (handle depth conn decompressed).map (recompressed decompressed)
    else if isTransform raw then some (handleEncrypted srv now conn raw)
    else some (handlePlainInner srv now conn raw false)

end Messages

end Connection

/-! ### A server to try out -/

section Sample

/-- The first bytes of a text, filled up with zeros. -/
def sampleFit (n : ℕ) (bytes : List UInt8) : List UInt8 :=
  bytes.take n ++ List.replicate (n - bytes.length) 0

theorem length_sampleFit (n : ℕ) (bytes : List UInt8) : (sampleFit n bytes).length = n := by
  simp only [sampleFit, List.length_append, List.length_take, List.length_replicate]
  omega

theorem length_of_sampleOpen {key tag cipherText text : List UInt8}
    (h : (if tag = sampleFit 16 key then some cipherText else none) = some text) :
    text.length = cipherText.length := by
  split at h
  · rw [Option.some.inj h]
  · cases h

/-- Keys are used as they are: a tag is the key, and a derived key is the one it is made from. -/
def samplePrimitives : Primitives where
  hmacSha256 key _ := sampleFit 32 key
  sha512 _ := List.replicate 64 0
  aesCmac key _ := sampleFit 16 key
  aeadSeal _ key _ _ text := (text, sampleFit 16 key)
  aeadOpen _ key _ _ cipherText tag := if tag = sampleFit 16 key then some cipherText else none
  length_hmacSha256 key _ := length_sampleFit 32 key
  length_aesCmac key _ := length_sampleFit 16 key
  length_aeadSeal _ key _ _ _ := ⟨rfl, length_sampleFit 16 key⟩
  length_aeadOpen _ _ _ _ _ _ _ h := length_of_sampleOpen h

/-- Every NTLM response is one of `alice` and brings the session key along. -/
def sampleServer : Server Unit where
  crypto := samplePrimitives
  serviceKey := none
  verifiesNtlm := true
  ntlmUsername _ := some "alice"
  ntlmEstablish _ message _ := some (message.drop 12)
  pipe _ := none

/-- A share with one file. -/
def sampleVfs : Vfs where
  nodes := [⟨"", .dir [1]⟩, ⟨"GPT.INI", .file (Text.asciiBytes "Version=1")⟩]
  lookup path := if path = "" then some 0 else if path = "GPT.INI" then some 1 else none

def sampleMoment : Moment Unit where
  sysvol := sampleVfs
  netlogon := sampleVfs
  ntHash _ := some []
  verifyApReq _ _ := none
  buildApRep _ := none
  transact _ _ := ((), none)

/-- A request without a session, a tree or a signature. -/
def sampleRequest (command flags : ℕ) (body : List UInt8) : List UInt8 :=
  smb2Magic ++ leBytes 2 headerLen ++ leBytes 2 0 ++ leBytes 4 0 ++ leBytes 2 command ++
    leBytes 2 1 ++ leBytes 4 flags ++ leBytes 4 0 ++ leBytes 8 0 ++ leBytes 4 0 ++ leBytes 4 0 ++
    leBytes 8 0 ++ List.replicate 16 0 ++ body

end Sample

end Magnetite.Smb
