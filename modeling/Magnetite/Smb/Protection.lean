import Magnetite.Lib.Ndr
import Magnetite.Lib.Text

/-!
# Signed and encrypted messages

Signing and encryption of messages, and the keys for it. The primitives (HMAC-SHA256, SHA-512,
AES-CMAC and the AEAD ciphers) are parameters with the lengths of what they return.
-/
namespace Magnetite.Smb

open Magnetite.Lib Magnetite.Lib.Ndr

/-! ## Fields of a message -/

section Fields

/-- The bytes of a field, if the message is long enough. -/
def slice (bytes : List UInt8) (off len : ℕ) : Option (List UInt8) :=
  if off + len ≤ bytes.length then some ((bytes.drop off).take len) else none

/-- A truncated field reads as 0. -/
def le (size : ℕ) (bytes : List UInt8) (off : ℕ) : ℕ :=
  ((slice bytes off size).map ofLeBytes).getD 0

def le16 : List UInt8 → ℕ → ℕ := le 2

def le32 : List UInt8 → ℕ → ℕ := le 4

def le64 : List UInt8 → ℕ → ℕ := le 8

/-- Overwrites the bytes at an offset. -/
def overwrite (off : ℕ) (new bytes : List UInt8) : List UInt8 :=
  bytes.take off ++ new ++ bytes.drop (off + new.length)

theorem length_overwrite {off : ℕ} {new bytes : List UInt8} (h : off + new.length ≤ bytes.length) :
    (overwrite off new bytes).length = bytes.length := by
  simp only [overwrite, List.length_append, List.length_take, List.length_drop]
  omega

end Fields

def headerLen : ℕ := 64

/-! ## Primitives -/

inductive Cipher where
  | ccm128 | gcm128 | ccm256 | gcm256
deriving DecidableEq

namespace Cipher

def nonceLen : Cipher → ℕ
  | ccm128 | ccm256 => 11
  | gcm128 | gcm256 => 12

def keyLen : Cipher → ℕ
  | ccm128 | gcm128 => 16
  | ccm256 | gcm256 => 32

def algorithmId : Cipher → ℕ
  | ccm128 => 1
  | gcm128 => 2
  | ccm256 => 3
  | gcm256 => 4

def fromId : ℕ → Option Cipher
  | 1 => some ccm128
  | 2 => some gcm128
  | 3 => some ccm256
  | 4 => some gcm256
  | _ => none

/-- The strongest comes first. -/
def preference : Cipher → ℕ
  | gcm256 => 0
  | ccm256 => 1
  | gcm128 => 2
  | ccm128 => 3

end Cipher

structure Primitives where
  hmacSha256 : (key data : List UInt8) → List UInt8
  sha512 : List UInt8 → List UInt8
  aesCmac : (key data : List UInt8) → List UInt8
  /-- The ciphertext and its tag. -/
  aeadSeal : Cipher → (key nonce aad text : List UInt8) → List UInt8 × List UInt8
  aeadOpen : Cipher → (key nonce aad cipherText tag : List UInt8) → Option (List UInt8)
  length_hmacSha256 : ∀ key data, (hmacSha256 key data).length = 32
  length_aesCmac : ∀ key data, (aesCmac key data).length = 16
  length_aeadSeal : ∀ cipher key nonce aad text,
    (aeadSeal cipher key nonce aad text).1.length = text.length ∧
      (aeadSeal cipher key nonce aad text).2.length = 16
  length_aeadOpen : ∀ cipher key nonce aad cipherText tag text,
    aeadOpen cipher key nonce aad cipherText tag = some text → text.length = cipherText.length

namespace Primitives

variable (crypto : Primitives)

/-! ## Keys -/

section Keys

/-- The block that keys are cut from. -/
def kdfBlock (ki label context : List UInt8) (lengthBits : ℕ) : List UInt8 :=
  crypto.hmacSha256 ki (beBytes 4 1 ++ label ++ [0] ++ context ++ beBytes 4 lengthBits)

def kdf (ki label context : List UInt8) (lengthBits : ℕ) : List UInt8 :=
  (crypto.kdfBlock ki label context lengthBits).take (lengthBits / 8)

def kdfCounter (ki label context : List UInt8) (lengthBits : ℕ) : List UInt8 :=
  (crypto.kdfBlock ki label context lengthBits).take 16

def smb3SigningKey (sessionKey : List UInt8) : List UInt8 :=
  crypto.kdfCounter sessionKey (Text.asciiBytes "SMB2AESCMAC\x00") (Text.asciiBytes "SmbSign\x00") 128

def smb311SigningKey (sessionKey preauthHash : List UInt8) : List UInt8 :=
  crypto.kdfCounter sessionKey (Text.asciiBytes "SMBSigningKey\x00") preauthHash 128

def smb3ApplicationKey (sessionKey : List UInt8) : List UInt8 :=
  crypto.kdfCounter sessionKey (Text.asciiBytes "SMB2APP\x00") (Text.asciiBytes "SmbRpc\x00") 128

def smb311ApplicationKey (sessionKey preauthHash : List UInt8) : List UInt8 :=
  crypto.kdfCounter sessionKey (Text.asciiBytes "SMBAppKey\x00") preauthHash 128

/-- The keys that the server encrypts and decrypts with, in version 3.0. -/
def encryptionKeys (sessionKey : List UInt8) : List UInt8 × List UInt8 :=
  (crypto.kdfCounter sessionKey (Text.asciiBytes "SMB2AESCCM\x00")
    (Text.asciiBytes "ServerOut\x00") 128,
    crypto.kdfCounter sessionKey (Text.asciiBytes "SMB2AESCCM\x00")
      (Text.asciiBytes "ServerIn \x00") 128)

/-- The keys that the server encrypts and decrypts with, in version 3.1.1. -/
def encryptionKeys311 (ki preauth : List UInt8) (keyBytes : ℕ) : List UInt8 × List UInt8 :=
  (crypto.kdf ki (Text.asciiBytes "SMBS2CCipherKey\x00") preauth (keyBytes * 8),
    crypto.kdf ki (Text.asciiBytes "SMBC2SCipherKey\x00") preauth (keyBytes * 8))

def preauthUpdate (hash msg : List UInt8) : List UInt8 := crypto.sha512 (hash ++ msg)

end Keys

/-! ## Signatures -/

section Signatures

def flagsSigned : ℕ := 0x8

/-- Whether a message says that it is signed. -/
def isSigned (msg : List UInt8) : Bool := le32 msg 16 &&& flagsSigned ≠ 0

/-- The message with an empty signature, which the signature is made over. -/
def unsigned (msg : List UInt8) : List UInt8 := overwrite 48 (List.replicate 16 0) msg

def signMessage (signingKey msg : List UInt8) : List UInt8 :=
  if msg.length < headerLen then msg
  else
    let msg := unsigned (overwrite 16 (leBytes 4 (le32 msg 16 ||| flagsSigned)) msg)
    overwrite 48 (crypto.aesCmac signingKey msg) msg

def verifyMessage (signingKey msg : List UInt8) : Bool :=
  decide (headerLen ≤ msg.length) && isSigned msg &&
    crypto.aesCmac signingKey (unsigned msg) = (msg.drop 48).take 16

theorem length_signMessage (signingKey msg : List UInt8) :
    (crypto.signMessage signingKey msg).length = msg.length := by
  unfold signMessage
  split
  · rfl
  · rename_i hlong
    simp only [headerLen, not_lt] at hlong
    have hflags (n : ℕ) : (overwrite 16 (leBytes 4 n) msg).length = msg.length :=
      length_overwrite (by simp only [length_leBytes]; omega)
    have hzero (n : ℕ) : (unsigned (overwrite 16 (leBytes 4 n) msg)).length = msg.length := by
      rw [unsigned, length_overwrite (by rw [List.length_replicate, hflags]; omega), hflags]
    dsimp only
    rw [length_overwrite (by rw [crypto.length_aesCmac, hzero]; omega), hzero]

end Signatures

/-! ## Encrypted messages -/

section Transform

/-- `\xFDSMB`. -/
def transformProtocolId : List UInt8 := [0xfd, 0x53, 0x4d, 0x42]

def transformHeaderLen : ℕ := 52

/-- The flag of an encrypted message, at the place of the algorithm in version 3.0. -/
def transformFlagEncrypted : ℕ := 1

/-- The nonce of a message: its number and zeros. -/
def nonceOf (cipher : Cipher) (nonceCtr : ℕ) : List UInt8 :=
  leBytes 8 nonceCtr ++ List.replicate (cipher.nonceLen - 8) 0

def encrypt (cipher : Cipher) (encKey : List UInt8) (sessionId nonceCtr : ℕ)
    (plaintext : List UInt8) : List UInt8 :=
  let nonce := nonceOf cipher nonceCtr
  let aad := nonce ++ List.replicate (16 - cipher.nonceLen) 0 ++ leBytes 4 plaintext.length ++
    leBytes 2 0 ++ leBytes 2 transformFlagEncrypted ++ leBytes 8 sessionId
  let (cipherText, tag) := crypto.aeadSeal cipher encKey nonce aad plaintext
  transformProtocolId ++ tag ++ aad ++ cipherText

def decrypt (cipher : Cipher) (decKey transform : List UInt8) : Option (List UInt8) :=
  if transform.length < transformHeaderLen ∨ transform.take 4 ≠ transformProtocolId then none
  else
    let tag := (transform.drop 4).take 16
    let nonce := (transform.drop 20).take cipher.nonceLen
    let aad := (transform.drop 20).take (transformHeaderLen - 20)
    let originalSize := ofLeBytes ((transform.drop 36).take 4)
    (crypto.aeadOpen cipher decKey nonce aad (transform.drop transformHeaderLen) tag).map
      (·.take originalSize)

def sessionIdOf (transform : List UInt8) : ℕ := le64 transform 44

theorem length_encrypt (cipher : Cipher) (encKey : List UInt8) (sessionId nonceCtr : ℕ)
    (plaintext : List UInt8) :
    (crypto.encrypt cipher encKey sessionId nonceCtr plaintext).length =
      plaintext.length + transformHeaderLen := by
  have hseal := crypto.length_aeadSeal cipher encKey
  simp only [encrypt, List.length_append, hseal, nonceOf, length_leBytes, List.length_replicate]
  cases cipher <;> simp only [Cipher.nonceLen, transformProtocolId, transformHeaderLen,
    List.length_cons, List.length_nil] <;> omega

theorem length_decrypt {cipher : Cipher} {decKey transform plaintext : List UInt8}
    (h : crypto.decrypt cipher decKey transform = some plaintext) :
    plaintext.length ≤ transform.length := by
  unfold decrypt at h
  split at h
  · cases h
  · simp only [Option.map_eq_some_iff] at h
    obtain ⟨text, hopen, rfl⟩ := h
    have := crypto.length_aeadOpen _ _ _ _ _ _ _ hopen
    simp only [List.length_take, List.length_drop] at *
    omega

/-- Different numbers give different nonces. -/
theorem nonceOf_injective {cipher cipher' : Cipher} {n m : ℕ} (hn : n < 2 ^ 64) (hm : m < 2 ^ 64)
    (h : nonceOf cipher n = nonceOf cipher' m) : n = m := by
  have hfront := (List.append_inj h (by simp)).1
  have := congrArg ofLeBytes hfront
  rwa [ofLeBytes_leBytes, ofLeBytes_leBytes, Nat.mod_eq_of_lt (by omega), Nat.mod_eq_of_lt (by omega)]
    at this

end Transform

end Primitives

end Magnetite.Smb
